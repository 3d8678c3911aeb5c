import ModuleLoader.Proofs.Growth

/-! Where statements come from. A statement is executed because it stands in a list that is being
executed, in the scope of that list, or because it is the branch or the turn of another statement.
Lists are executed in scopes with a frame of their own. -/
namespace ModuleLoader

open Script

/-- The statement stands where a block could stand: it is a branch, or the turn of a loop, or it
comes before all turns. -/
inductive Script.Stmt.SingleIn (s : Stmt) : Stmt → Prop where
  | consequent {e : Expr} {s' : Option Stmt} {span : Span} : SingleIn s (.«if» e s s' span)
  | alternate {e : Expr} {s' : Stmt} {span : Span} : SingleIn s (.«if» e s' (some s) span)
  | whileTurn {e : Expr} {span : Span} : SingleIn s (.«while» e s span)
  | forTurn {init : Option Stmt} {e e' : Option Expr} {span : Span} :
      SingleIn s (.«for» init e e' s span)
  | forInit {e e' : Option Expr} {s' : Stmt} {span : Span} :
      SingleIn s (.«for» (some s) e e' s' span)

namespace Task

def isStatement : Task → Bool
  | statement _ _ => true
  | _ => false

/-- What the task may ask for: a statement only if it is in its list, or single in it. -/
def Delegates (t : Task) : Task → Prop
  | statement s scope =>
    (∃ statements, t = body statements scope ∧ s ∈ statements) ∨
      ∃ s' scope', t = statement s' scope' ∧ s.SingleIn s'
  | _ => True

/-- If the task executes a list of statements, then in a scope whose own frame is in the heap. -/
def Housed (h : Heap) : Task → Prop
  | body _ scope => ∃ id outer, scope = id :: outer ∧ id < h.frames.size
  | _ => True

end Task

/-- The plan is one for the task: from this heap on, its acts make the heap grow, and what it asks
for is what the task may ask for. -/
def Plan.Serves {α : Type} (t : Task) : Heap → Plan α → Prop
  | _, done _ => True
  | h, act x next => ∀ m r m', m.heap = h → Machine.run m x = some (r, m') →
    h.Grows m'.heap ∧ ∀ b, r = .ok b → (next b).Serves t m'.heap
  | h, ask s next => t.Delegates s ∧ s.Housed h ∧ ∀ a h', (next a).Serves t h'
  | h, attempt s next => t.Delegates s ∧ s.Housed h ∧ ∀ r h', (next r).Serves t h'

/-- Where a plan pauses that is one for the task. -/
def Pause.Serves {α : Type} (t : Task) (h : Heap) : Pause α → Prop
  | ended _ => True
  | asked s next => t.Delegates s ∧ s.Housed h ∧ ∀ r h', (next r).Serves t h'

namespace Plan

variable {α β : Type} {t : Task} {h : Heap} {m m' : Machine}

theorem Serves.bind {p : Plan α} {f : α → Plan β} (hp : p.Serves t h)
    (hf : ∀ a h, (f a).Serves t h) : (p >>= f).Serves t h := by
  induction p generalizing h with
  | done a => exact hf a h
  | act x next ih =>
    intro m r m' hm hrun
    exact (hp m r m' hm hrun).imp_right fun hnext b hb => ih b (hnext b hb)
  | ask s next ih => exact ⟨hp.1, hp.2.1, fun a h' => ih a (hp.2.2 a h')⟩
  | attempt s next ih => exact ⟨hp.1, hp.2.1, fun r h' => ih r (hp.2.2 r h')⟩

theorem serves_passing {s : Task} {next : s.Result → Plan α} (hnext : ∀ a h, (next a).Serves t h)
    (r : Except Exception s.Result) (h : Heap) : (passing next r).Serves t h := by
  cases r with
  | ok a => exact hnext a h
  | error e =>
    rintro m r m' rfl hrun
    cases hrun
    exact ⟨.refl _, nofun⟩

/-- Up to its next pause, a plan makes the heap grow. -/
theorem Serves.advance {p : Plan α} (hp : p.Serves t m.heap) {q : Pause α}
    (hq : p.advance m = some (q, m')) : m.heap.Grows m'.heap ∧ q.Serves t m'.heap := by
  induction p generalizing m with
  | done a =>
    obtain ⟨rfl, rfl⟩ := Prod.mk.inj (Option.some.inj hq)
    exact ⟨.refl _, trivial⟩
  | act x next ih =>
    rw [Plan.advance] at hq
    split at hq
    · contradiction
    · rename_i e m₁ hx
      obtain ⟨rfl, rfl⟩ := Prod.mk.inj (Option.some.inj hq)
      exact ⟨(hp m _ _ rfl hx).1, trivial⟩
    · rename_i b m₁ hx
      obtain ⟨hgrows, hnext⟩ := hp m _ _ rfl hx
      exact (ih b (hnext b rfl) hq).imp_left hgrows.trans
  | ask s next =>
    obtain ⟨rfl, rfl⟩ := Prod.mk.inj (Option.some.inj hq)
    exact ⟨.refl _, hp.1, hp.2.1, serves_passing hp.2.2⟩
  | attempt s next =>
    obtain ⟨rfl, rfl⟩ := Prod.mk.inj (Option.some.inj hq)
    exact ⟨.refl _, hp⟩

/-! ### Acts and single tasks -/

open Run Evaluate

theorem serves_act_next {x : Run β} {next : β → Plan α} (hx : x.Grows)
    (hnext : ∀ b h, (next b).Serves t h) : (act x next).Serves t h := by
  rintro m r m' rfl hrun
  exact ⟨hx m r m' hrun, fun b _ => hnext b _⟩

theorem serves_act {x : Run α} (hx : x.Grows) : (act x done).Serves t h :=
  serves_act_next hx fun _ _ => trivial

theorem serves_inert {x : Run α} (hx : x.Inert) : (act x done).Serves t h :=
  serves_act hx.grows

theorem serves_inert_bind {x : Run α} {f : α → Plan β} (hx : x.Inert)
    (hf : ∀ a h, (f a).Serves t h) : (act x done >>= f).Serves t h :=
  serves_act_next hx.grows hf

/-- After a frame was made, its scope has that frame for its own. -/
theorem serves_newScope_next {outer : Scope} {f : Frame} {next : Scope → Plan α}
    (hnext : ∀ id h, id < h.frames.size → (next (id :: outer)).Serves t h) :
    (act (newScope outer f) next).Serves t h := by
  rintro m r m' rfl hrun
  refine ⟨grows_newScope outer f m r m' hrun, ?_⟩
  rintro scope rfl
  cases hrun
  exact hnext _ _ (by simp)

theorem serves_value (e : Expr) (scope : Scope) : (value e scope).Serves t h :=
  ⟨trivial, trivial, fun _ _ => trivial⟩

theorem serves_place (e : Expr) (scope : Scope) : (place e scope).Serves t h :=
  ⟨trivial, trivial, fun _ _ => trivial⟩

theorem serves_method (e : Expr) (scope : Scope) : (method e scope).Serves t h :=
  ⟨trivial, trivial, fun _ _ => trivial⟩

theorem serves_single {s s' : Stmt} {scope scope' : Scope} (hs : s.SingleIn s') :
    (statement s scope).Serves (.statement s' scope') h :=
  ⟨.inr ⟨_, _, rfl, hs⟩, trivial, fun _ _ => trivial⟩

theorem serves_value_bind {e : Expr} {scope : Scope} {f : Value → Plan β}
    (hf : ∀ v h, (f v).Serves t h) : (value e scope >>= f).Serves t h :=
  (serves_value e scope).bind hf

/-! ### Expressions -/

theorem serves_values (scope : Scope) (es : List Expr) : (values scope es).Serves t h := by
  induction es generalizing h with
  | nil => trivial
  | cons e rest ih => exact serves_value_bind fun _ _ => ih.bind fun _ _ => trivial

theorem serves_properties (scope : Scope) (fields : List (String × Expr)) :
    (properties scope fields).Serves t h := by
  induction fields generalizing h with
  | nil => trivial
  | cons field rest ih => exact serves_value_bind fun _ _ => ih.bind fun _ _ => trivial

theorem serves_ofExpr (scope : Scope) (e : Expr) : (ofExpr scope e).Serves t h := by
  cases e with
  | number | string | bool | null => trivial
  | identifier name => exact serves_inert (inert_getVariable scope name)
  | this => exact serves_inert_bind inert_heap fun _ _ => trivial
  | array items =>
    exact (serves_values scope items).bind fun _ _ => serves_inert (inert_newArray _)
  | object fields =>
    exact (serves_properties scope fields).bind fun _ _ => serves_inert (inert_newObject _)
  | function literal => exact serves_act (grows_functionValue literal scope)
  | unary op operand =>
    refine serves_inert_bind inert_heap fun _ _ => ?_
    split
    · trivial
    · exact serves_value_bind fun _ _ => trivial
  | binary op left right =>
    exact serves_value_bind fun _ _ => serves_value_bind fun _ _ =>
      serves_inert_bind inert_heap fun _ _ => trivial
  | logical op left right =>
    refine serves_value_bind fun _ _ => ?_
    split
    · trivial
    · exact serves_value right scope
  | conditional test consequent alternate =>
    refine serves_value_bind fun _ _ => ?_
    split
    · exact serves_value consequent scope
    · exact serves_value alternate scope
  | assign op target e =>
    have hput (v : Value) (p : Place) (h : Heap) :
        (act (putPlace scope v p) fun _ => done v).Serves t h :=
      serves_act_next (grows_putPlace scope v p) fun _ _ => trivial
    cases op with
    | none =>
      exact (serves_place target scope).bind fun p _ => serves_value_bind fun v _ => hput v p _
    | some op =>
      exact (serves_place target scope).bind fun p _ =>
        serves_inert_bind (inert_getPlace scope p) fun _ _ => serves_value_bind fun _ _ =>
          serves_inert_bind inert_heap fun _ _ => hput _ p _
  | update step side target =>
    exact (serves_place target scope).bind fun p _ =>
      serves_inert_bind (inert_getPlace scope p) fun _ _ =>
        serves_act_next (grows_putPlace scope _ p) fun _ _ => trivial
  | call callee args =>
    refine (serves_method callee scope).bind fun ⟨f, this⟩ _ =>
      (serves_values scope args).bind fun _ _ => ?_
    split
    · exact ⟨trivial, trivial, fun _ _ => trivial⟩
    · exact serves_inert (inert_raise _ _)
  | member object => exact serves_value_bind fun _ _ => serves_inert (inert_getProperty _ _)
  | index object index =>
    exact serves_value_bind fun _ _ => serves_value_bind fun _ _ =>
      serves_inert_bind inert_heap fun _ _ => serves_inert (inert_getProperty _ _)

theorem serves_ofTarget (scope : Scope) (e : Expr) : (ofTarget scope e).Serves t h := by
  unfold ofTarget
  split
  · trivial
  · exact serves_value_bind fun _ _ => trivial
  · exact serves_value_bind fun _ _ => serves_value_bind fun _ _ =>
      serves_inert_bind inert_heap fun _ _ => trivial
  · exact serves_inert (inert_raise _ _)

theorem serves_ofCallee (scope : Scope) (e : Expr) : (ofCallee scope e).Serves t h := by
  unfold ofCallee
  split
  · exact serves_value_bind fun _ _ =>
      serves_inert_bind (inert_getProperty _ _) fun _ _ => trivial
  · exact serves_value_bind fun _ _ => serves_value_bind fun _ _ =>
      serves_inert_bind inert_heap fun _ _ =>
        serves_inert_bind (inert_getProperty _ _) fun _ _ => trivial
  · exact serves_value_bind fun _ _ => trivial

/-! ### Statements -/

theorem serves_attemptBody {statements : List Stmt} {id : FrameId} {outer : Scope}
    (hid : id < h.frames.size) : (attemptBody statements (id :: outer)).Serves t h :=
  ⟨trivial, ⟨id, outer, rfl, hid⟩, fun _ _ => trivial⟩

theorem serves_inNewScope (statements : List Stmt) (outer : Scope) :
    (inNewScope statements outer).Serves t h :=
  serves_newScope_next fun id _ hid => ⟨trivial, ⟨id, outer, rfl, hid⟩, fun _ _ => trivial⟩

/-- A list asks for its own statements, in its own scope. -/
theorem serves_ofBody (statements : List Stmt) (scope : Scope) :
    (ofBody statements scope).Serves (.body statements scope) h := by
  refine serves_act_next (grows_hoist scope statements) fun _ h => ?_
  suffices hsequence : ∀ rest ⊆ statements, ∀ h,
      (sequence scope rest).Serves (.body statements scope) h from
    hsequence statements (List.Subset.refl _) h
  intro rest hrest
  induction rest with
  | nil => exact fun _ => trivial
  | cons s rest ih =>
    intro h
    obtain ⟨hs, hrest⟩ := List.cons_subset.mp hrest
    have hstatement : (statement s scope).Serves (.body statements scope) h :=
      ⟨.inl ⟨statements, rfl, hs⟩, trivial, fun _ _ => trivial⟩
    refine hstatement.bind fun c h => ?_
    cases c with
    | normal => exact ih hrest h
    | «return» | «break» | «continue» => trivial

theorem serves_loop {condition : Plan Bool} {turn : Plan Completion} {update : Plan Unit}
    (hc : ∀ h, condition.Serves t h) (ht : ∀ h, turn.Serves t h) (hu : ∀ h, update.Serves t h)
    (turns : Nat) : (loop condition turn update turns).Serves t h := by
  induction turns generalizing h with
  | zero => exact fun _ _ _ _ hrun => nomatch hrun
  | succ turns ih =>
    refine (hc h).bind fun b h => ?_
    split
    · refine (ht h).bind fun c h => ?_
      split
      · trivial
      · trivial
      · exact (hu h).bind fun _ _ => ih
    · trivial

theorem serves_declarations (kind : DeclarationWord) (scope : Scope)
    (ds : List (String × Option Expr)) : (declarations kind scope ds).Serves t h := by
  induction ds generalizing h with
  | nil => trivial
  | cons d rest ih =>
    obtain ⟨name, init⟩ := d
    have hdeclare (v : Value) (h : Heap) :
        (act (Run.declare scope name v (kind ≠ .«const»)) fun _ =>
          declarations kind scope rest).Serves t h :=
      serves_act_next (grows_declare scope name v _) fun _ _ => ih
    cases init with
    | none => exact hdeclare .undefined h
    | some e => exact serves_value_bind hdeclare

theorem serves_handled (r : Except Exception Completion) (param : Option String)
    (handler : Option (List Stmt)) (scope : Scope) :
    (handled r param handler scope).Serves t h := by
  unfold handled
  split
  · exact serves_inert_bind (inert_handlerFrame param _) fun _ _ =>
      serves_newScope_next fun _ _ hid => serves_attemptBody hid
  · trivial

theorem serves_finalized (r : Except Exception Completion) (finalizer : Option (List Stmt))
    (scope : Scope) : (finalized r finalizer scope).Serves t h := by
  cases finalizer with
  | none => exact serves_inert (inert_resume r)
  | some finalizer =>
    refine (serves_inNewScope finalizer scope).bind fun c _ => ?_
    cases c with
    | normal => exact serves_inert (inert_resume r)
    | «return» | «break» | «continue» => trivial

theorem serves_guarded (block : List Stmt) (param : Option String)
    (handler finalizer : Option (List Stmt)) (scope : Scope) :
    (guarded block param handler finalizer scope).Serves t h :=
  serves_newScope_next fun _ _ hid => (serves_attemptBody hid).bind fun r _ =>
    (serves_handled r param handler scope).bind fun r _ => serves_finalized r finalizer scope

theorem serves_ofStmt (turns : Nat) (scope : Scope) (s : Stmt) :
    (ofStmt turns scope s).Serves (.statement s scope) h := by
  cases s with
  | declaration kind ds => exact (serves_declarations kind scope ds).bind fun _ _ => trivial
  | function | empty | «break» | «continue» => trivial
  | expression e => exact serves_value_bind fun _ _ => trivial
  | «if» condition consequent alternate =>
    refine serves_value_bind fun _ _ => ?_
    split
    · exact serves_single .consequent
    · cases alternate with
      | none => trivial
      | some s => exact serves_single .alternate
  | «while» condition turn =>
    refine serves_loop (fun _ => ?_) (fun _ => serves_single .whileTurn) (fun _ => ?_) turns
    · exact serves_value_bind fun _ _ => trivial
    · trivial
  | «for» init condition update turn =>
    refine serves_newScope_next fun id h _ => ?_
    rcases init with _ | s
    case' some => refine (serves_single .forInit).bind fun _ _ => ?_
    all_goals
      refine serves_loop (fun _ => ?_) (fun _ => serves_single .forTurn) (fun _ => ?_) turns
      · cases condition with
        | none => trivial
        | some e => exact serves_value_bind fun _ _ => trivial
      · cases update with
        | none => trivial
        | some e => exact serves_value_bind fun _ _ => trivial
  | block statements => exact serves_inNewScope statements scope
  | «return» e =>
    cases e with
    | none => trivial
    | some e => exact serves_value_bind fun _ _ => trivial
  | throw e => exact serves_value_bind fun _ _ => serves_inert (inert_stop _)
  | «try» block param handler finalizer => exact serves_guarded block param handler finalizer scope

/-! ### Calls and modules -/

theorem serves_callFunction (f : FunctionId) (this : Value) (args : List Value) :
    (callFunction f this args).Serves t h := by
  rw [callFunction_eq]
  refine serves_act_next inert_machine.grows fun m _ => ?_
  split
  · exact serves_inert (inert_raise _ _)
  · refine serves_act_next inert_enter.grows fun _ _ => serves_act_next inert_heap.grows fun _ _ =>
      serves_newScope_next fun id h hid => ⟨trivial, ⟨id, _, rfl, hid⟩, fun r _ => ?_⟩
    exact serves_inert_bind inert_leave fun _ _ =>
      serves_inert_bind (inert_resume r) fun _ _ => trivial

theorem serves_ofCall (f this : Value) (args : List Value) : (ofCall f this args).Serves t h := by
  unfold ofCall
  split
  · exact serves_callFunction _ this args
  · unfold require
    split
    · refine serves_inert_bind inert_machine fun m _ => ?_
      split
      · exact serves_inert (inert_raise _ _)
      · exact ⟨trivial, trivial, fun _ _ => trivial⟩
    · exact serves_inert (inert_raise _ _)
  · exact serves_inert (Builtin.inert_call _ _ _)
  · exact serves_inert (inert_raise _ _)

theorem serves_ofStart (u : Module) (s : Strategy) : (ofStart u s).Serves t h := by
  cases s with
  | json => exact serves_inert (inert_loadJson u)
  | script =>
    refine serves_inert_bind (inert_sourceOf u.id) fun source _ => ?_
    refine serves_act_next (grows_compile source) fun r _ => ?_
    cases r with
    | error e => exact serves_inert (inert_stop _)
    | ok f =>
      exact serves_inert_bind inert_heap fun _ _ => ⟨trivial, trivial, fun _ _ => trivial⟩

theorem serves_conclude (u : Module) (r : Except Exception Unit) : (conclude u r).Serves t h := by
  cases r with
  | error e => exact serves_inert_bind (inert_modifyLoader _) fun _ _ => serves_inert (inert_stop _)
  | ok a =>
    exact serves_inert_bind (inert_modifyLoader _) fun _ _ =>
      serves_inert_bind (inert_announce u) fun _ _ =>
        serves_inert_bind inert_heap fun _ _ => trivial

theorem serves_ofLoad (reference : String) (dir : Path) : (ofLoad reference dir).Serves t h := by
  rw [ofLoad_eq]
  refine serves_act_next (inert_modifyLoader _).grows fun _ _ =>
    serves_act_next inert_machine.grows fun m _ => ?_
  split
  · exact serves_inert (inert_stop _)
  · refine serves_act_next (inert_register _).grows fun answer _ => ?_
    cases answer with
    | hit u => exact serves_act_next inert_heap.grows fun _ _ => trivial
    | registered u =>
      show (loadNew u).Serves t _
      rw [loadNew_eq]
      refine serves_act_next inert_machine.grows fun m _ => ?_
      split
      · exact serves_conclude u _
      · exact serves_act_next (inert_modifyLoader _).grows fun _ _ =>
          ⟨trivial, trivial, fun r _ => serves_conclude u r⟩

/-- Every task has a plan that serves it. -/
theorem serves_ofTask (n : Nat) (t : Task) (h : Heap) : (ofTask n t).Serves t h := by
  cases t with
  | value e scope => exact serves_ofExpr scope e
  | place e scope => exact serves_ofTarget scope e
  | method e scope => exact serves_ofCallee scope e
  | statement s scope => exact serves_ofStmt n scope s
  | body statements scope => exact serves_ofBody statements scope
  | call f this args => exact serves_ofCall f this args
  | load reference dir => exact serves_ofLoad reference dir
  | start u s => exact serves_ofStart u s

end Plan

/-! ### Moments -/

/-- The tasks that wait may ask for what they wait for, and go on with plans that serve them. -/
def Stack.Serves : {s : Task} → Stack s → Prop
  | _, bottom _ => True
  | s, frame _ t next below =>
    t.Delegates s ∧ (∀ r h, (next r).Serves t h) ∧ below.Serves

/-- The start was the entering of the task at the bottom of the stack; for each frame a task was
entered since, and moments lead from there to now. -/
def Stack.Entered (start now : Moment) : {s : Task} → Stack s → Prop
  | _, bottom t => ∃ n m, start = .entering n t (.bottom t) m
  | _, frame n t _ below =>
    (∃ m begun, Moment.Steps start (.entering (n + 1) t below m) ∧
      (Moment.entering (n + 1) t below m).step = some begun ∧ Moment.Steps begun now) ∧
    below.Entered start now

theorem Stack.Entered.later {start now next : Moment} (hnext : Moment.Steps now next) {s : Task}
    {stack : Stack s} (h : stack.Entered start now) : stack.Entered start next := by
  induction stack with
  | bottom t => exact h
  | frame n t _ below ih =>
    obtain ⟨⟨m, begun, hentered, hbegun, hnow⟩, hbelow⟩ := h
    exact ⟨⟨m, begun, hentered, hbegun, hnow.trans hnext⟩, ih hbelow⟩

namespace Moment

/-- All that is going on serves a task, and lists are only entered in scopes of their own. -/
def Serves : Moment → Prop
  | resting _ => True
  | entering _ t stack m => t.Housed m.heap ∧ stack.Serves
  | leaving _ _ stack _ => stack.Serves

/-- What waits at the moment was entered since the start. -/
def Entered (now start : Moment) : Prop :=
  match now with
  | resting _ => True
  | entering _ _ stack _ | leaving _ _ stack _ => stack.Entered start now

variable {a b : Moment}

theorem serves_pause {n : Nat} {t : Task} {stack : Stack t} {m : Machine} {q : Pause t.Result}
    (hq : q.Serves t m.heap) (hs : stack.Serves) : (q.moment n t stack m).Serves := by
  cases q with
  | ended r => exact hs
  | asked s next => exact ⟨hq.2.1, hq.1, hq.2.2, hs⟩

/-- Every step makes the heap grow. -/
theorem Serves.step (ha : a.Serves) (h : a.step = some b) :
    b.Serves ∧ a.machine.heap.Grows b.machine.heap := by
  match a with
  | resting _ | entering 0 _ _ _ | leaving _ _ (.bottom _) _ => contradiction
  | entering (n + 1) t stack m =>
    obtain ⟨⟨q, m'⟩, hq, rfl⟩ := Option.map_eq_some_iff.mp h
    obtain ⟨hgrows, hq'⟩ := (Plan.serves_ofTask n t m.heap).advance hq
    refine ⟨serves_pause hq' ha.2, ?_⟩
    cases q <;> exact hgrows
  | leaving s r (.frame n t next below) m =>
    obtain ⟨⟨q, m'⟩, hq, rfl⟩ := Option.map_eq_some_iff.mp h
    obtain ⟨-, hnext, hbelow⟩ := ha
    obtain ⟨hgrows, hq'⟩ := (hnext r m.heap).advance hq
    refine ⟨serves_pause hq' hbelow, ?_⟩
    cases q <;> exact hgrows

theorem Steps.serves (h : Steps a b) (ha : a.Serves) :
    b.Serves ∧ a.machine.heap.Grows b.machine.heap := by
  induction h with
  | refl => exact ⟨ha, .refl _⟩
  | tail _ hstep ih =>
    obtain ⟨hb, hgrows⟩ := ih
    obtain ⟨hc, hgrows'⟩ := hb.step hstep
    exact ⟨hc, hgrows.trans hgrows'⟩

/-- A step enters a task for a frame that it puts on the stack, and what it leaves of the stack was
there before. -/
theorem Entered.step {start : Moment} (ha : a.Entered start) (hstart : Steps start a)
    (h : a.step = some b) : b.Entered start := by
  match a with
  | resting _ | entering 0 _ _ _ | leaving _ _ (.bottom _) _ => contradiction
  | entering (n + 1) t stack m =>
    have hlater : stack.Entered start b := Stack.Entered.later (.single h) ha
    obtain ⟨⟨q, m'⟩, hq, hb⟩ := Option.map_eq_some_iff.mp h
    cases q with
    | ended r =>
      obtain rfl := hb
      exact hlater
    | asked s next =>
      obtain rfl := hb
      exact ⟨⟨m, _, hstart, h, .refl⟩, hlater⟩
  | leaving s r (.frame n t next below) m =>
    have hlater : (Stack.frame n t next below).Entered start b :=
      Stack.Entered.later (.single h) ha
    obtain ⟨⟨q, m'⟩, hq, hb⟩ := Option.map_eq_some_iff.mp h
    cases q with
    | ended r =>
      obtain rfl := hb
      exact hlater.2
    | asked s next =>
      obtain rfl := hb
      exact ⟨hlater.1, hlater.2⟩

/-- Whatever waits at a moment of a run was entered earlier in the run. -/
theorem Steps.entered {n : Nat} {t : Task} {m : Machine}
    (h : Steps (.entering n t (.bottom t) m) a) : a.Entered (.entering n t (.bottom t) m) := by
  induction h with
  | refl => exact ⟨n, m, rfl⟩
  | tail hsteps hstep ih => exact ih.step hsteps hstep

end Moment

end ModuleLoader
