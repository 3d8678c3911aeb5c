import ModuleLoader.Proofs.Plans

/-! How waiting tasks go on. A task that waits for a plain reason ends with the exception of the one
it waits for; the other reasons are the body of a function, the parts of a guarded statement, and
the strategy at work on a module. -/
namespace ModuleLoader

open Script

/-- The value that a `catch` clause binds, and the heap that it is in. -/
def Exception.caughtIn (h : Heap) : Exception → Value × Heap
  | thrown v => (v, h)
  | uncaught _ v => (v, h)
  | load fault =>
    let made := h.newObject
      [("name", .string "Error"), ("message", .string fault.message), ("code", .string fault.code)]
    (.object made.1, made.2)

def Exception.handlerFrame (param : Option String) (h : Heap) (e : Exception) : Frame × Heap :=
  match param with
  | some name => ([(name, ⟨(e.caughtIn h).1, true⟩)], (e.caughtIn h).2)
  | none => ([], h)

namespace Machine

variable {m : Machine}

theorem run_caught (e : Exception) : m.run (Run.caught e) =
    some (.ok (e.caughtIn m.heap).1, { m with heap := (e.caughtIn m.heap).2 }) := by
  cases e <;> rfl

theorem run_handlerFrame (param : Option String) (e : Exception) :
    m.run (Plan.handlerFrame param e) =
      some (.ok (e.handlerFrame param m.heap).1,
        { m with heap := (e.handlerFrame param m.heap).2 }) := by
  cases param with
  | none => rfl
  | some name => exact Machine.run_bind_ok (run_caught e)

def note (m : Machine) (e : Event) : Machine :=
  { m with loader := m.loader.note e }

/-- The machine in which the loading of a module has come to its end. -/
def settle (m : Machine) (id : Path) (state : ModuleState) : Machine :=
  { m with loader := m.loader.settle id state }

def reuse (m : Machine) (id : Path) : Machine :=
  { m with loader :=
    { m.loader.note (.reused id) with registry :=
      { m.loader.registry with hits := m.loader.registry.hits + 1 } } }

def enrol (m : Machine) (id : Path) : Machine :=
  { m with
    heap := (Module.create m.heap id).2
    loader :=
      { m.loader.note (.registered id) with registry :=
        { m.loader.registry with
          modules := m.loader.registry.modules ++ [(Module.create m.heap id).1]
          misses := m.loader.registry.misses + 1 } } }

theorem run_register_hit {id : Path} {u : Module} (h : m.loader.registry.find? id = some u) :
    m.run (Evaluate.register id) = some (.ok (.hit u), m.reuse id) := by
  show some (_, _) = _
  simp only [Registry.lookup, h]
  rfl

theorem run_register_new {id : Path} (h : m.loader.registry.find? id = none) :
    m.run (Evaluate.register id) =
      some (.ok (.registered (Module.create m.heap id).1), m.enrol id) := by
  show some (_, _) = _
  simp only [Registry.lookup, h]
  rfl

end Machine

namespace Plan

variable {α β : Type} {m m' : Machine}

/-! ### What a task does when the one it waits for has ended -/

def afterBody (r : Except Exception Completion) : Plan Value := do
  Run.leave
  return (← Run.resume r).value

def afterBlock (param : Option String) (handler finalizer : Option (List Stmt)) (scope : Scope)
    (r : Except Exception Completion) : Plan Completion := do
  finalized (← handled r param handler scope) finalizer scope

def afterHandler (finalizer : Option (List Stmt)) (scope : Scope)
    (r : Except Exception Completion) : Plan Completion :=
  finalized r finalizer scope

def afterFinalizer (outcome : Except Exception Completion) : Completion → Plan Completion
  | .normal => Run.resume outcome
  | abrupt => return abrupt

theorem advance_afterBody (r : Except Exception Completion) :
    (afterBody r).advance m =
      some (.ended (r.map Completion.value), { m with depth := m.depth - 1 }) := by
  cases r <;> rfl

theorem advance_resume (r : Except Exception α) :
    (act (Run.resume r) done).advance m = some (.ended r, m) := by
  cases r <;> rfl

theorem advance_finalized_none (r : Except Exception Completion) (scope : Scope) :
    (finalized r none scope).advance m = some (.ended r, m) :=
  advance_resume r

theorem advance_finalized_some (r : Except Exception Completion) (finalizer : List Stmt)
    (scope : Scope) : (finalized r (some finalizer) scope).advance m =
      some (.asked (.body finalizer (m.heap.frames.size :: scope)) (passing (afterFinalizer r)),
        { m with heap := (m.heap.newFrame []).2 }) :=
  rfl

theorem advance_afterFinalizer (r : Except Exception Completion) (c : Completion) :
    (afterFinalizer r c).advance m = some (.ended r, m) ∨
      (afterFinalizer r c).advance m = some (.ended (.ok c), m) := by
  cases c with
  | normal => exact .inl (advance_resume r)
  | «return» v => exact .inr rfl
  | «break» => exact .inr rfl
  | «continue» => exact .inr rfl

theorem afterBlock_unhandled (param : Option String) (finalizer : Option (List Stmt))
    (scope : Scope) (r : Except Exception Completion) :
    afterBlock param none finalizer scope r = finalized r finalizer scope := by
  cases r <;> rfl

/-- The machine in which the handler of an exception is about to be run. -/
def handling (param : Option String) (e : Exception) (m : Machine) : Machine :=
  { m with heap :=
    ((e.handlerFrame param m.heap).2.newFrame (e.handlerFrame param m.heap).1).2 }

theorem advance_afterBlock_handled (param : Option String) (handler : List Stmt)
    (finalizer : Option (List Stmt)) (scope : Scope) (e : Exception) :
    (afterBlock param (some handler) finalizer scope (.error e)).advance m =
      some (.asked (.body handler ((e.handlerFrame param m.heap).2.frames.size :: scope))
        (afterHandler finalizer scope), handling param e m) := by
  show (act (handlerFrame param e) _).advance m = _
  simp only [advance, Machine.run_handlerFrame]
  rfl

theorem advance_conclude_ok (u : Module) :
    (conclude u (.ok ())).advance m =
      some (.ended (.ok (u.exposed (u.announce m.heap))),
        { m.settle u.id .loaded with heap := u.announce m.heap }) :=
  rfl

theorem advance_conclude_error (u : Module) (e : Exception) :
    (conclude u (.error e)).advance m =
      some (.ended (.error (Evaluate.leaving u.id e)), m.settle u.id .failed) :=
  rfl

/-! ### The loading of a module -/

variable {reference : String} {dir id : Path} {u : Module}

theorem loadNew_eq (u : Module) :
    loadNew u = act Run.machine fun m =>
      match m.loader.strategyFor? u.id with
      | none => conclude u (.error (.load (.unknownExtension u.id (u.extension?.getD ""))))
      | some s => act (Run.modifyLoader fun l => l.note (.started u.id s)) fun _ =>
          attempt (.start u s) (conclude u) :=
  rfl

theorem advance_loadNew_unknown (h : m.loader.strategyFor? u.id = none) :
    (loadNew u).advance m =
      some (.ended (.error (.load (.unknownExtension u.id (u.extension?.getD "")))),
        m.settle u.id .failed) := by
  rw [loadNew_eq, advance_act Machine.run_machine, h]
  exact advance_conclude_error u _

theorem advance_loadNew_started {s : Strategy} (h : m.loader.strategyFor? u.id = some s) :
    (loadNew u).advance m =
      some (.asked (.start u s) (conclude u), m.note (.started u.id s)) := by
  rw [loadNew_eq, advance_act Machine.run_machine, h]
  rfl

theorem ofLoad_eq (reference : String) (dir : Path) :
    ofLoad reference dir =
      act (Run.modifyLoader fun l => l.note (.sought (l.candidates reference dir))) fun _ =>
        act Run.machine fun m =>
          match m.loader.resolve reference dir with
          | .error e => act (Run.stop (.load e)) done
          | .ok id => act (Evaluate.register id) fun
            | .hit u => act Run.heap fun h => done (u.exposed h)
            | .registered u => loadNew u :=
  rfl

/-- The machine that looks for the file that a reference stands for. -/
def seeking (reference : String) (dir : Path) (m : Machine) : Machine :=
  m.note (.sought (m.loader.candidates reference dir))

theorem advance_ofLoad : (ofLoad reference dir).advance m =
    (match m.loader.resolve reference dir with
      | .error e => act (Run.stop (.load e)) done
      | .ok id => act (Evaluate.register id) fun
        | .hit u => act Run.heap fun h => done (u.exposed h)
        | .registered u => loadNew u : Plan Value).advance (seeking reference dir m) := by
  rw [ofLoad_eq, advance_act (Machine.run_modifyLoader _), advance_act Machine.run_machine]
  rfl

theorem advance_ofLoad_notFound {fault : LoadFault}
    (h : m.loader.resolve reference dir = .error fault) :
    (ofLoad reference dir).advance m =
      some (.ended (.error (.load fault)), seeking reference dir m) := by
  rw [advance_ofLoad, h]
  rfl

theorem advance_ofLoad_hit (h : m.loader.resolve reference dir = .ok id)
    (hu : m.loader.registry.find? id = some u) :
    (ofLoad reference dir).advance m =
      some (.ended (.ok (u.exposed m.heap)), (seeking reference dir m).reuse id) := by
  have hu' : (seeking reference dir m).loader.registry.find? id = some u := hu
  rw [advance_ofLoad, h, advance_act (Machine.run_register_hit hu')]
  rfl

theorem advance_ofLoad_new (h : m.loader.resolve reference dir = .ok id)
    (hu : m.loader.registry.find? id = none) :
    (ofLoad reference dir).advance m =
      (loadNew (Module.create m.heap id).1).advance ((seeking reference dir m).enrol id) := by
  have hu' : (seeking reference dir m).loader.registry.find? id = none := hu
  rw [advance_ofLoad, h, advance_act (Machine.run_register_new hu')]
  rfl

/-! ### The call of a script function -/

/-- The machine in which the body of a function is about to be run. -/
def calling (f : FunctionId) (this : Value) (args : List Value) (m : Machine) : Machine :=
  { m with
    depth := m.depth + 1
    deepest := max m.deepest (m.depth + 1)
    heap := (m.heap.newFrame
      (Evaluate.callFrame this (m.heap.closure f).literal.params args)).2 }

theorem callFunction_eq (f : FunctionId) (this : Value) (args : List Value) :
    callFunction f this args = act Run.machine fun m =>
      if m.maxDepth ≤ m.depth then
        act (Run.raise "RangeError" "Maximum call stack size exceeded") done
      else
        act Run.enter fun _ => act Run.heap fun h =>
          act (Run.newScope (h.closure f).scope
            (Evaluate.callFrame this (h.closure f).literal.params args)) fun scope =>
              attempt (.body (h.closure f).literal.body scope) afterBody :=
  rfl

theorem advance_callFunction (f : FunctionId) (this : Value) (args : List Value)
    (h : m.depth < m.maxDepth) :
    (callFunction f this args).advance m =
      some (.asked (.body (m.heap.closure f).literal.body
        (m.heap.frames.size :: (m.heap.closure f).scope)) afterBody, calling f this args m) := by
  rw [callFunction_eq, advance_act Machine.run_machine, if_neg (Nat.not_le.mpr h)]
  rfl

theorem advance_callFunction_tooDeep (f : FunctionId) (this : Value) (args : List Value)
    (h : m.maxDepth ≤ m.depth) :
    (callFunction f this args).advance m =
      (act (Run.raise "RangeError" "Maximum call stack size exceeded") done : Plan Value).advance
        m := by
  rw [callFunction_eq, advance_act Machine.run_machine, if_pos h]

end Plan

/-! ### Reasons to wait -/

/-- Why a task waits for another, as its continuation tells. Of a guarded statement in its
finalizer, the exception that is on hold is one of `E`. -/
inductive Waits (E : Exception → Prop) :
    (t s : Task) → (Except Exception s.Result → Plan t.Result) → Prop where
  | plain {t s : Task} {next : s.Result → Plan t.Result} (ht : t.isLoad = false)
      (hs : s.isStart = false) (hnext : ∀ a, (next a).Plain) : Waits E t s (Plan.passing next)
  | function {id : FunctionId} {this : Value} {args : List Value} {body : List Stmt}
      {scope : Scope} : Waits E (.call (.function id) this args) (.body body scope) Plan.afterBody
  | block {block : List Stmt} {param : Option String} {handler finalizer : Option (List Stmt)}
      {span : Span} {scope inner : Scope} :
      Waits E (.statement (.try block param handler finalizer span) scope) (.body block inner)
        (Plan.afterBlock param handler finalizer scope)
  | handler {block : List Stmt} {param : Option String} {handler : List Stmt}
      {finalizer : Option (List Stmt)} {span : Span} {scope inner : Scope} :
      Waits E (.statement (.try block param (some handler) finalizer span) scope)
        (.body handler inner) (Plan.afterHandler finalizer scope)
  | finalizer {block : List Stmt} {param : Option String} {handler : Option (List Stmt)}
      {finalizer : List Stmt} {span : Span} {scope inner : Scope}
      {outcome : Except Exception Completion} (he : ∀ e, outcome = .error e → E e) :
      Waits E (.statement (.try block param handler (some finalizer) span) scope)
        (.body finalizer inner) (Plan.passing (Plan.afterFinalizer outcome))
  | module {reference : String} {dir : Path} {u : Module} {s : Strategy} :
      Waits E (.load reference dir) (.start u s) (Plan.conclude u)

theorem Waits.mono {E E' : Exception → Prop} (hE : ∀ e, E e → E' e) {t s : Task}
    {next : Except Exception s.Result → Plan t.Result} (h : Waits E t s next) :
    Waits E' t s next := by
  cases h with
  | plain ht hs hnext => exact .plain ht hs hnext
  | function => exact .function
  | block => exact .block
  | handler => exact .handler
  | finalizer he => exact .finalizer fun e h => hE e (he e h)
  | module => exact .module

def Exception.isThrown : Exception → Bool
  | thrown _ => true
  | _ => false

/-- A task may pause so: its exception is one of `E`, and it knows why it waits. A loading does not
end in a value that was merely thrown. -/
def Pause.Fits (E : Exception → Prop) (t : Task) : Pause t.Result → Prop
  | ended r => ∀ e, r = .error e → E e ∧ (t.isLoad = true → e.isThrown = false)
  | asked s next => Waits E t s next

theorem Pause.Fits.mono {E E' : Exception → Prop} (hE : ∀ e, E e → E' e) {t : Task}
    {q : Pause t.Result} (h : q.Fits E t) : q.Fits E' t := by
  cases q with
  | ended r => exact fun e he => (h e he).imp_left (hE e)
  | asked s next => exact Waits.mono hE h

namespace Plan

variable {E : Exception → Prop} {t s : Task} {m m' : Machine} {q : Pause t.Result}

theorem Plain.fits (hE : ∀ e : Exception, e.Own → E e) (ht : t.isLoad = false) {p : Plan t.Result}
    (hp : p.Plain) (h : p.advance m = some (q, m')) : m.Quiet m' ∧ q.Fits E t := by
  induction p generalizing m with
  | done a =>
    obtain ⟨rfl, rfl⟩ := Prod.mk.inj (Option.some.inj h)
    exact ⟨.refl m, nofun⟩
  | act x next ih =>
    rw [advance] at h
    split at h
    · contradiction
    · rename_i e m₁ hx
      obtain ⟨rfl, rfl⟩ := Prod.mk.inj (Option.some.inj h)
      refine ⟨hp.1.quiet hx, fun e' he => ?_⟩
      cases he
      exact ⟨hE _ (hp.1.own hx), by simp only [ht, Bool.false_eq_true, false_implies]⟩
    · rename_i b m₁ hx
      obtain ⟨hq, hf⟩ := ih b (hp.2 b) h
      exact ⟨(hp.1.quiet hx).trans hq, hf⟩
  | ask s next =>
    obtain ⟨rfl, rfl⟩ := Prod.mk.inj (Option.some.inj h)
    exact ⟨.refl m, .plain ht hp.1 hp.2⟩
  | attempt s next => exact hp.elim

theorem finalized_fits {block : List Stmt} {param : Option String}
    {handler finalizer : Option (List Stmt)} {span : Span} {scope : Scope}
    {r : Except Exception Completion} {q : Pause Completion} (hr : ∀ e, r = .error e → E e)
    (h : (finalized r finalizer scope).advance m = some (q, m')) :
    m.Quiet m' ∧
      q.Fits E (.statement (.try block param handler finalizer span) scope) := by
  cases finalizer with
  | none =>
    rw [advance_finalized_none] at h
    obtain ⟨rfl, rfl⟩ := Prod.mk.inj (Option.some.inj h)
    exact ⟨.refl m, fun e he => ⟨hr e he, nofun⟩⟩
  | some finalizer =>
    rw [advance_finalized_some] at h
    obtain ⟨rfl, rfl⟩ := Prod.mk.inj (Option.some.inj h)
    exact ⟨⟨.refl _, rfl, rfl⟩, .finalizer hr⟩

theorem ofTask_fits (hE : ∀ e : Exception, e.Own → E e) {n : Nat} (ht : t.isLoad = false)
    (h : (ofTask n t).advance m = some (q, m')) :
    m.loader.Reads m'.loader ∧ q.Fits E t := by
  have plain (hp : (ofTask n t).Plain) : m.loader.Reads m'.loader ∧ q.Fits E t :=
    (hp.fits hE ht h).imp_left Machine.Quiet.loader
  cases t with
  | value e scope => exact plain (plain_ofExpr scope e)
  | place e scope => exact plain (plain_ofTarget scope e)
  | method e scope => exact plain (plain_ofCallee scope e)
  | body statements scope => exact plain (plain_ofBody statements scope)
  | start u s => exact plain (plain_ofStart u s)
  | load reference dir => cases ht
  | statement s scope =>
    by_cases hs : ∃ block param handler finalizer span,
        s = .try block param handler finalizer span
    · obtain ⟨block, param, handler, finalizer, span, rfl⟩ := hs
      obtain ⟨rfl, rfl⟩ := Prod.mk.inj (Option.some.inj h)
      exact ⟨.refl _, .block⟩
    · exact plain (plain_ofStmt n scope s fun _ _ _ _ _ he => hs ⟨_, _, _, _, _, he⟩)
  | call f this args =>
    by_cases hf : ∃ id, f = .function id
    · obtain ⟨id, rfl⟩ := hf
      obtain hd | hd := Nat.lt_or_ge m.depth m.maxDepth
      · replace h := (advance_callFunction id this args hd).symm.trans h
        obtain ⟨rfl, rfl⟩ := Prod.mk.inj (Option.some.inj h)
        exact ⟨.refl _, .function⟩
      · replace h := (advance_callFunction_tooDeep id this args hd).symm.trans h
        obtain ⟨hq, hfits⟩ := (plain_raise _ _).fits hE ht h
        exact ⟨hq.loader, hfits⟩
    · exact plain (plain_ofCall f this args fun id he => hf ⟨id, he⟩)

end Plan

theorem Waits.fits {E : Exception → Prop} (hE : ∀ e : Exception, e.Own → E e) {t s : Task}
    {next : Except Exception s.Result → Plan t.Result} (hw : Waits E t s next)
    (ht : t.isLoad = false) {r : Except Exception s.Result} (hr : ∀ e, r = .error e → E e)
    {m m' : Machine} {q : Pause t.Result} (h : (next r).advance m = some (q, m')) :
    m.loader.Reads m'.loader ∧ q.Fits E t := by
  cases hw with
  | plain ht hs hnext =>
    cases r with
    | ok a => exact ((hnext a).fits hE ht h).imp_left Machine.Quiet.loader
    | error e =>
      obtain ⟨rfl, rfl⟩ := Prod.mk.inj (Option.some.inj h)
      refine ⟨.refl _, fun e' he => ?_⟩
      cases he
      exact ⟨hr e rfl, by simp only [ht, Bool.false_eq_true, false_implies]⟩
  | function =>
    rw [Plan.advance_afterBody] at h
    obtain ⟨rfl, rfl⟩ := Prod.mk.inj (Option.some.inj h)
    refine ⟨.refl _, fun e he => ⟨?_, nofun⟩⟩
    cases r with
    | ok c => cases he
    | error e' =>
      cases he
      exact hr e rfl
  | @block block param handler finalizer span scope inner =>
    by_cases hh : ∃ e body, r = .error e ∧ handler = some body
    · obtain ⟨e, body, rfl, rfl⟩ := hh
      rw [Plan.advance_afterBlock_handled] at h
      obtain ⟨rfl, rfl⟩ := Prod.mk.inj (Option.some.inj h)
      exact ⟨.refl _, .handler⟩
    · have hf : Plan.afterBlock param handler finalizer scope r =
          Plan.finalized r finalizer scope := by
        cases handler with
        | none => exact Plan.afterBlock_unhandled param finalizer scope r
        | some body =>
          cases r with
          | ok c => rfl
          | error e => exact absurd ⟨e, body, rfl, rfl⟩ hh
      rw [hf] at h
      exact (Plan.finalized_fits hr h).imp_left Machine.Quiet.loader
  | handler => exact (Plan.finalized_fits hr h).imp_left Machine.Quiet.loader
  | @finalizer block param handler finalizer span scope inner outcome he =>
    cases r with
    | ok c =>
      obtain h' | h' := Plan.advance_afterFinalizer (m := m) outcome c
      · obtain ⟨rfl, rfl⟩ := Prod.mk.inj (Option.some.inj (h'.symm.trans h))
        exact ⟨.refl _, fun e h => ⟨he e h, nofun⟩⟩
      · obtain ⟨rfl, rfl⟩ := Prod.mk.inj (Option.some.inj (h'.symm.trans h))
        exact ⟨.refl _, nofun⟩
    | error e =>
      obtain ⟨rfl, rfl⟩ := Prod.mk.inj (Option.some.inj h)
      refine ⟨.refl _, fun e' h => ⟨?_, nofun⟩⟩
      cases h
      exact hr e rfl
  | module => cases ht

end ModuleLoader
