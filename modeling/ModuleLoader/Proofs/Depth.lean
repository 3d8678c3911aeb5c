import ModuleLoader.Proofs.Contracts
import ModuleLoader.Proofs.Surfacing

/-! The depth of calls. At every moment it is the number of script functions on the stack, counted
from where a run began, and a function that would go beyond the limit is not entered. Modules that
require one another are on the same stack, and between two of them there is a call. -/
namespace ModuleLoader

open Script

namespace Task

def callsFunction : Task → Bool
  | call (.function _) _ _ => true
  | _ => false

/-- Only the loading of a module sets a strategy to work, and all that a strategy asks for is the
call of a script function. -/
def MayAsk (t s : Task) : Prop :=
  (s.isStart = true → t.isLoad = true) ∧ (t.isStart = true → s.callsFunction = true)

theorem MayAsk.of_not_start {t s : Task} (ht : t.isStart = false) (hs : s.isStart = false) :
    t.MayAsk s :=
  ⟨by simp only [hs, Bool.false_eq_true, false_implies],
    by simp only [ht, Bool.false_eq_true, false_implies]⟩

end Task

/-- Between the acts of a task the depth stays as it is, and so does its limit. -/
def Contract.level (base limit : Nat) (t : Task) : Contract where
  holds m := m.depth = base ∧ m.maxDepth = limit
  admits := t.MayAsk
  gives _ _ := True

/-! ### The plans of all tasks but the call of a script function -/

theorem Evaluate.eq_function_of_compile {source : String} {f : Value} {m m' : Machine}
    (h : m.run (Evaluate.compile source) = some (.ok (.ok f), m')) : ∃ id, f = .function id := by
  unfold Evaluate.compile at h
  split at h
  · cases h
  · cases h
    exact ⟨_, rfl⟩

namespace Plan

variable {base limit : Nat} {t : Task}

theorem level_quiet {m m' : Machine} (h : m.Quiet m')
    (hm : (Contract.level base limit t).holds m) :
    (Contract.level base limit t).holds m' :=
  ⟨h.depth.trans hm.1, h.maxDepth.trans hm.2⟩

theorem Plain.level {α : Type} {p : Plan α} (hp : p.Plain) (ht : t.isStart = false) :
    p.Keeps (.level base limit t) fun _ => True :=
  hp.keeps level_quiet fun _ hs => .of_not_start ht hs

theorem level_attemptBody (ht : t.isStart = false) (statements : List Stmt) (scope : Scope) :
    (attemptBody statements scope).Keeps (.level base limit t) fun _ => True :=
  ⟨.of_not_start ht rfl, fun _ _ => trivial⟩

theorem plain_handlerFrame (param : Option String) (e : Exception) :
    (handlerFrame param e).Plain := by
  cases param with
  | none => exact Run.plain_pure _
  | some name => exact (Run.plain_caught e).bind fun _ => Run.plain_pure _

theorem level_handled (ht : t.isStart = false) (outcome : Except Exception Completion)
    (param : Option String) (handler : Option (List Stmt)) (scope : Scope) :
    (handled outcome param handler scope).Keeps (.level base limit t) fun _ => True := by
  unfold handled
  split
  · exact ((plain_act (plain_handlerFrame param _)).level ht).bind fun frame _ =>
      ((plain_act (Run.plain_newScope scope frame)).level ht).bind fun inner _ =>
        level_attemptBody ht _ _
  · trivial

theorem level_finalized (ht : t.isStart = false) (outcome : Except Exception Completion)
    (finalizer : Option (List Stmt)) (scope : Scope) :
    (finalized outcome finalizer scope).Keeps (.level base limit t) fun _ => True := by
  cases finalizer with
  | none => exact Run.keeps_resume fun _ _ => trivial
  | some finalizer =>
    refine ((plain_inNewScope finalizer scope).level ht).bind fun c _ => ?_
    cases c with
    | normal => exact Run.keeps_resume fun _ _ => trivial
    | _ => trivial

theorem level_guarded (ht : t.isStart = false) (block : List Stmt) (param : Option String)
    (handler finalizer : Option (List Stmt)) (scope : Scope) :
    (guarded block param handler finalizer scope).Keeps (.level base limit t)
      fun _ => True :=
  ((plain_act (Run.plain_newScope scope [])).level ht).bind fun inner _ =>
    (level_attemptBody ht block inner).bind fun outcome _ =>
      (level_handled ht outcome param handler scope).bind fun outcome _ =>
        level_finalized ht outcome finalizer scope

theorem level_startScript (u : Module) (s : Strategy) :
    (startScript u).Keeps (.level base limit (.start u s)) fun _ => True := by
  refine Keeps.bind (Q := fun _ => True)
    ((Evaluate.plain_sourceOf u.id).keeps level_quiet fun _ => trivial) fun source _ => ?_
  refine Keeps.bind (Q := fun r => ∀ f, r = .ok f → ∃ id, f = .function id) ?_ fun r hr => ?_
  · intro m r m' hm h
    refine ⟨level_quiet ((Evaluate.plain_compile source).quiet h) hm, ?_⟩
    rintro _ rfl f rfl
    exact Evaluate.eq_function_of_compile h
  · cases r with
    | error e => exact Run.keeps_stop _
    | ok f =>
      obtain ⟨id, rfl⟩ := hr f rfl
      refine Keeps.bind (Q := fun _ => True) Run.keeps_heap fun h _ => ?_
      exact ⟨⟨nofun, fun _ => rfl⟩, fun _ _ => trivial⟩

theorem level_sparesLoading : (Contract.level base limit t).SparesLoading where
  modifyLoader f m r m' hm h := by
    cases h
    exact ⟨hm, fun _ _ => trivial⟩
  register id m r m' hm h := by
    cases h
    exact ⟨hm, fun _ _ => trivial⟩
  announce u := (Run.plain_modifyHeap _).keeps level_quiet fun _ => trivial

theorem level_ofTask (n : Nat) (ht : t.callsFunction = false) :
    (ofTask n t).Keeps (.level base limit t) fun _ => True := by
  cases t with
  | value e scope => exact (plain_ofExpr scope e).level rfl
  | place e scope => exact (plain_ofTarget scope e).level rfl
  | method e scope => exact (plain_ofCallee scope e).level rfl
  | body statements scope => exact (plain_ofBody statements scope).level rfl
  | load reference dir =>
    have hstart (u : Module) (s : Strategy) : (Task.load reference dir).MayAsk (.start u s) :=
      ⟨fun _ => rfl, nofun⟩
    exact keeps_ofLoad level_sparesLoading hstart reference dir
  | statement s scope =>
    by_cases hs : ∃ block param handler finalizer span,
        s = .try block param handler finalizer span
    · obtain ⟨block, param, handler, finalizer, span, rfl⟩ := hs
      exact level_guarded rfl block param handler finalizer scope
    · exact (plain_ofStmt n scope s fun _ _ _ _ _ he => hs ⟨_, _, _, _, _, he⟩).level rfl
  | call f this args =>
    refine (plain_ofCall f this args ?_).level rfl
    rintro id rfl
    cases ht
  | start u s =>
    cases s with
    | json => exact (Evaluate.plain_loadJson u).keeps level_quiet fun _ => trivial
    | script => exact level_startScript u .script

end Plan

/-! ### Stacks and moments -/

namespace Stack

/-- The number of script functions that are on the stack. -/
def calls {t : Task} : Stack t → Nat
  | bottom _ => 0
  | frame _ t' _ below => below.calls + if t'.callsFunction then 1 else 0

/-- Tasks ask only for what they may ask for. When the body of a function has ended, the call of the
function ends and takes its share of the depth away; all other tasks leave the depth alone. -/
def Level (base limit : Nat) : {s : Task} → Stack s → Prop
  | _, bottom t => t.isStart = false
  | s, frame _ t next below =>
    t.MayAsk s ∧ below.Level base limit ∧
      if t.callsFunction then
        ∀ r m, ∃ r', (next r).advance m = some (.ended r', { m with depth := m.depth - 1 })
      else ∀ r, (next r).Keeps (.level (base + below.calls) limit t) fun _ => True

/-- Between the strategies at work on two modules the stack has a call: the strategy of the outer
one called a function. -/
theorem Level.length_loading {base limit : Nat} {s : Task} {stack : Stack s}
    (h : stack.Level base limit) :
    stack.loading.length ≤ stack.calls + if s.isStart || s.callsFunction then 1 else 0 := by
  induction stack with
  | bottom t => exact Nat.zero_le _
  | @frame n t s next below ih =>
    obtain ⟨⟨hload, hcalls⟩, hbelow, -⟩ := h
    replace ih := ih hbelow
    by_cases hs : s.isStart = true
    · have ht : t.isStart = false ∧ t.callsFunction = false := by
        have := hload hs
        cases t <;> first | exact ⟨rfl, rfl⟩ | cases this
      have hm : s.module?.toList.length ≤ 1 := by cases s.module? <;> simp
      simp only [ht.1, ht.2, Bool.or_self, Bool.false_eq_true, if_false] at ih
      simp only [loading, hload hs, if_true, List.length_append, calls, ht.2, hs, Bool.true_or,
        Bool.false_eq_true, if_false]
      omega
    · have hm : s.module? = none := by cases s <;> first | rfl | exact absurd rfl hs
      have hl : (frame n t next below).loading = below.loading := by
        simp only [loading, hm, Option.toList_none, ite_self, List.nil_append]
      rw [Bool.not_eq_true] at hs
      rw [hl, calls, hs, Bool.false_or]
      by_cases ht : t.isStart = true
      · rw [hcalls ht]
        simp only [ht, Bool.true_or, if_true] at ih ⊢
        omega
      · rw [Bool.not_eq_true] at ht
        rw [ht, Bool.false_or] at ih
        omega

end Stack

namespace Moment

def calls : Moment → Nat
  | resting _ => 0
  | entering _ _ stack _ | leaving _ _ stack _ => stack.calls

def Nested (base limit : Nat) : Moment → Prop
  | resting _ => True
  | entering _ _ stack _ | leaving _ _ stack _ => stack.Level base limit

/-- The depth is the number of calls on the stack, on top of what it was at the bottom, and not
beyond the limit. -/
structure Level (base limit : Nat) (a : Moment) : Prop where
  depth : a.machine.depth = base + a.calls
  bounded : base + a.calls ≤ limit
  maxDepth : a.machine.maxDepth = limit
  nested : a.Nested base limit

variable {base limit : Nat}

theorem level_pause {n : Nat} {t : Task} {stack : Stack t} {m' : Machine} {q : Pause t.Result}
    (ht : t.callsFunction = false) (hs : stack.Level base limit)
    (hb : base + stack.calls ≤ limit)
    (hm : m'.depth = base + stack.calls ∧ m'.maxDepth = limit)
    (hq : q.Keeps (.level (base + stack.calls) limit t) fun _ => True) :
    (q.moment n t stack m').Level base limit := by
  cases q with
  | ended r => exact ⟨hm.1, hb, hm.2, hs⟩
  | asked s next =>
    have hcalls : (Stack.frame n t next stack).calls = stack.calls := by
      simp only [Stack.calls, ht, Bool.false_eq_true, if_false, Nat.add_zero]
    refine ⟨?_, ?_, hm.2, hq.1, hs, ?_⟩
    · exact hm.1.trans (by rw [← hcalls]; rfl)
    · exact Nat.le_trans (Nat.le_of_eq (by rw [← hcalls]; rfl)) hb
    · rw [ht, if_neg Bool.false_ne_true]
      exact fun r => hq.2 r fun _ _ => trivial

theorem level_call {n : Nat} {f : FunctionId} {this : Value} {args : List Value}
    {stack : Stack (.call (.function f) this args)} {m m' : Machine} {q : Pause Value}
    (ha : (entering (n + 1) (.call (.function f) this args) stack m).Level base limit)
    (h : (Plan.callFunction f this args).advance m = some (q, m')) :
    (q.moment n (.call (.function f) this args) stack m').Level base limit := by
  obtain ⟨hdepth, hb, hmax, hs⟩ := ha
  obtain hd | hd := Nat.lt_or_ge m.depth m.maxDepth
  · rw [Plan.advance_callFunction f this args hd] at h
    obtain ⟨rfl, rfl⟩ := Prod.mk.inj (Option.some.inj h)
    have hcalls : base + stack.calls < limit := by
      rw [← hmax]
      exact Nat.lt_of_le_of_lt (Nat.le_of_eq hdepth.symm) hd
    refine ⟨congrArg (· + 1) hdepth, hcalls, hmax, ⟨nofun, nofun⟩, hs, ?_⟩
    exact fun r m => ⟨_, Plan.advance_afterBody r⟩
  · rw [Plan.advance_callFunction_tooDeep f this args hd] at h
    cases h
    exact ⟨hdepth, hb, hmax, hs⟩

theorem level_step {a b : Moment} (ha : a.Level base limit) (h : a.step = some b) :
    b.Level base limit := by
  match a with
  | resting _ | entering 0 _ _ _ | leaving _ _ (.bottom _) _ => contradiction
  | entering (n + 1) t stack m =>
    obtain ⟨⟨q, m'⟩, hq, rfl⟩ := Option.map_eq_some_iff.mp h
    by_cases ht : t.callsFunction = true
    · cases t with
      | call f this args =>
        cases f with
        | function f => exact level_call ha hq
        | _ => cases ht
      | _ => cases ht
    · rw [Bool.not_eq_true] at ht
      obtain ⟨hdepth, hb, hmax, hs⟩ := ha
      have hp : (Plan.ofTask n t).Keeps (.level (base + stack.calls) limit t) fun _ => True :=
        Plan.level_ofTask n ht
      obtain ⟨hm', hq'⟩ := hp.advance ⟨hdepth, hmax⟩ hq
      exact level_pause ht hs hb hm' hq'
  | leaving s r (.frame n t next below) m =>
    obtain ⟨⟨q, m'⟩, hq, rfl⟩ := Option.map_eq_some_iff.mp h
    obtain ⟨hdepth, hb, hmax, -, hs, hnext⟩ := ha
    simp only [calls, Stack.calls] at hdepth hb
    by_cases ht : t.callsFunction = true
    · rw [if_pos ht] at hnext hdepth hb
      obtain ⟨r', hr⟩ := hnext r m
      rw [hr] at hq
      obtain ⟨rfl, rfl⟩ := Prod.mk.inj (Option.some.inj hq)
      refine ⟨?_, Nat.le_of_succ_le hb, hmax, hs⟩
      show m.depth - 1 = base + below.calls
      rw [show m.depth = base + (below.calls + 1) from hdepth]
      rfl
    · rw [if_neg ht] at hnext hdepth hb
      obtain ⟨hm', hq'⟩ := (hnext r).advance ⟨hdepth, hmax⟩ hq
      rw [Bool.not_eq_true] at ht
      exact level_pause ht hs hb hm' hq'

theorem Steps.level {a b : Moment} (h : Steps a b) (ha : a.Level base limit) :
    b.Level base limit := by
  induction h with
  | refl => exact ha
  | tail _ hstep ih => exact level_step ih hstep

theorem level_of_steps {m : Machine} (hm : m.depth ≤ m.maxDepth) {n : Nat} {t : Task}
    (ht : t.isStart = false) {a : Moment} (h : Steps (.entering n t (.bottom t) m) a) :
    a.Level m.depth m.maxDepth :=
  h.level ⟨rfl, hm, rfl, ht⟩

theorem Level.length_loading {a : Moment} (h : a.Level base limit) :
    a.loading.length ≤ a.calls + 1 := by
  have le (b : Bool) : (if b then 1 else 0) ≤ 1 := by cases b <;> decide
  cases a with
  | resting m => exact Nat.zero_le _
  | entering n t stack m =>
    exact Nat.le_trans h.nested.length_loading (Nat.add_le_add_left (le _) _)
  | leaving t r stack m =>
    exact Nat.le_trans h.nested.length_loading (Nat.add_le_add_left (le _) _)

/-! ### The call of a script function -/

/-- Wherever the exception arrives after it left some modules, a handler that names a variable is
run with the variable bound to the value. -/
def Catchable (v : Value) : Prop :=
  ∀ {ids block param handler finalizer span scope inner n m}
    {below : Stack (.statement (.try block (some param) (some handler) finalizer span) scope)},
    ∃ frame m', (leaving (.body block inner) (.error ((Exception.thrown v).outOf ids))
        (.inBlock n below) m).step =
      some (.entering n (.body handler (frame :: scope)) (.inHandler n below) m') ∧
      m'.heap.lookup? (frame :: scope) param = some v

theorem catchable (v : Value) : Catchable v := by
  intro ids block param handler finalizer span scope inner n m below
  refine ⟨_, _, ?_, Plan.catches_handling param (.thrown v) ids m scope⟩
  simp only [step, Plan.advance_afterBlock_handled, Option.map_some, Pause.moment]

/-- How the call of a script function begins: with its body, one call deeper, or at the limit with
an exception that a script can catch. -/
inductive Calls {f : FunctionId} {this : Value} {args : List Value}
    (stack : Stack (.call (.function f) this args)) (n : Nat) (m : Machine) : Moment → Prop where
  | entered (h : m.depth < m.maxDepth) :
      Calls stack n m (.entering n (.body (m.heap.closure f).literal.body
        (m.heap.frames.size :: (m.heap.closure f).scope)) (.inFunction n stack)
        (Plan.calling f this args m))
  | refused {o : ObjectId} {heap : Heap} (h : m.maxDepth ≤ m.depth)
      (ho : heap.object o = [("name", .string "RangeError"),
        ("message", .string "Maximum call stack size exceeded")])
      (hcatch : Catchable (.object o)) :
      Calls stack n m (.leaving (.call (.function f) this args) (.error (.thrown (.object o)))
        stack { m with heap })

theorem calls_of_step {n : Nat} {f : FunctionId} {this : Value} {args : List Value}
    {stack : Stack (.call (.function f) this args)} {m : Machine} {b : Moment}
    (h : (entering (n + 1) (.call (.function f) this args) stack m).step = some b) :
    Calls stack n m b := by
  obtain ⟨⟨q, m'⟩, hq, rfl⟩ := Option.map_eq_some_iff.mp h
  replace hq : (Plan.callFunction f this args).advance m = some (q, m') := hq
  obtain hd | hd := Nat.lt_or_ge m.depth m.maxDepth
  · rw [Plan.advance_callFunction f this args hd] at hq
    obtain ⟨rfl, rfl⟩ := Prod.mk.inj (Option.some.inj hq)
    exact .entered hd
  · rw [Plan.advance_callFunction_tooDeep f this args hd] at hq
    cases hq
    refine .refused hd ?_ (catchable _)
    simp [Heap.object]

/-- Every run ends at the depth that it began at, whether with a value or with an exception. At
every moment in between, the depth is that of the beginning and the number of script functions on
the stack, and not beyond the limit; the number of functions grows only below the limit. At the
limit a call ends at once, with an exception that can be caught. Modules that are being loaded, each
on behalf of the one before, are at most one more than the functions on the stack. -/
theorem depth_balanced_and_bounded {m : Machine} (hm : m.depth ≤ m.maxDepth) :
    (∀ {n p scope r m'}, m.run (Evaluate.program n p scope) = some (r, m') →
      m'.depth = m.depth ∧ m'.maxDepth = m.maxDepth) ∧
    ∀ {n t}, t.isStart = false →
      (∀ {r m'}, m.run (Evaluate.perform n t) = some (r, m') →
        m'.depth = m.depth ∧ m'.maxDepth = m.maxDepth) ∧
      ∀ {a}, Steps (.entering n t (.bottom t) m) a →
        a.machine.depth = m.depth + a.calls ∧ a.machine.maxDepth = m.maxDepth ∧
        a.machine.depth ≤ a.machine.maxDepth ∧
        (∀ {b}, a.step = some b → a.calls < b.calls → a.machine.depth < a.machine.maxDepth) ∧
        (∀ {k f this args stack m₁ b},
          a = .entering (k + 1) (.call (.function f) this args) stack m₁ → a.step = some b →
            Calls stack k m₁ b) ∧
        a.loading.length ≤ a.calls + 1 := by
  have balanced {n : Nat} {t : Task} {r : Except Exception t.Result} {m' : Machine}
      (ht : t.isStart = false) (h : m.run (Evaluate.perform n t) = some (r, m')) :
      m'.depth = m.depth ∧ m'.maxDepth = m.maxDepth := by
    have hlevel := level_of_steps hm ht (steps_of_perform h _)
    exact ⟨hlevel.depth, hlevel.maxDepth⟩
  refine ⟨fun h => ?_, fun ht => ⟨balanced ht, fun {a} ha => ?_⟩⟩
  · obtain ⟨e, he, -⟩ | ⟨c, m₁, hc, hend⟩ := Machine.run_bind_eq_some h
    · exact balanced rfl he
    · cases hend
      exact balanced rfl hc
  · have hlevel := level_of_steps hm ht ha
    refine ⟨hlevel.depth, hlevel.maxDepth, ?_, fun {b} hb hcalls => ?_, ?_, hlevel.length_loading⟩
    · rw [hlevel.depth, hlevel.maxDepth]
      exact hlevel.bounded
    · have hbounded := (level_step hlevel hb).bounded
      rw [hlevel.depth, hlevel.maxDepth]
      omega
    · rintro k f this args stack m₁ b rfl hb
      exact calls_of_step hb

end Moment

namespace Sample

/-- A machine that lets two functions be on the stack. -/
def shallow : Machine :=
  { machine with maxDepth := 2 }

/-- A function that calls itself, called where its end is caught. -/
def endless : String :=
  "function f() \x7b return f(); \x7d try \x7b f(); \x7d catch (e) \x7b return e.name; \x7d"

def givesText (text : String) : Except Exception Value → Bool
  | .ok (.string s) => s == text
  | _ => false

theorem eq_of_givesText {text : String} {r : Except Exception Value}
    (h : givesText text r = true) : r = .ok (.string text) := by
  unfold givesText at h
  split at h
  · rw [eq_of_beq h]
  · contradiction

end Sample

namespace Moment

theorem depth_balanced_and_bounded_sample : Sample.shallow.depth ≤ Sample.shallow.maxDepth ∧
    ∃ p m', Program.ofSource Sample.endless = .ok p ∧
      Sample.shallow.run (Evaluate.program 60 p globalScope) =
        some (.ok (.string "RangeError"), m') ∧ m'.deepest = 2 ∧ m'.depth = 0 := by
  have hrun : ((Program.ofSource Sample.endless).toOption.any fun p =>
      (Sample.shallow.run (Evaluate.program 60 p globalScope)).any fun q =>
        Sample.givesText "RangeError" q.1 && q.2.deepest == 2) = true := by
    decide +kernel
  obtain ⟨p, hp, hrun⟩ := (Option.any_eq_true ..).mp hrun
  obtain ⟨⟨r, m'⟩, hrun, hr⟩ := (Option.any_eq_true ..).mp hrun
  obtain ⟨hr, hdeepest⟩ := Bool.and_eq_true_iff.mp hr
  obtain rfl := Sample.eq_of_givesText hr
  have hm : Sample.shallow.depth ≤ Sample.shallow.maxDepth := by decide
  obtain ⟨hbalanced, -⟩ := depth_balanced_and_bounded hm
  exact ⟨hm, p, m', Sample.eq_ok_of_toOption hp, hrun, eq_of_beq hdeepest, (hbalanced hrun).1⟩

end Moment

end ModuleLoader
