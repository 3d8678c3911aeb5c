import ModuleLoader.Proofs.Life

/-! How exceptions cross modules. On its way down the stack an exception is put down to the first
module that it leaves, if it is a value that was thrown, and stays what it is from then on. Only a
handler, or a finalizer that does not end normally, holds it up. -/
namespace ModuleLoader

open Script

/-- What has become of an exception that has left some modules, the first first. -/
def Exception.outOf (e : Exception) : List Path → Exception
  | [] => e
  | id :: _ => Evaluate.leaving id e

namespace Exception

theorem leaving_leaving (e : Exception) (id id' : Path) :
    Evaluate.leaving id' (Evaluate.leaving id e) = Evaluate.leaving id e := by
  cases e <;> rfl

theorem outOf_append (e : Exception) (ids ids' : List Path) :
    (e.outOf ids).outOf ids' = e.outOf (ids ++ ids') := by
  cases ids with
  | nil => rfl
  | cons id rest =>
    cases ids' with
    | nil => rw [List.append_nil]; rfl
    | cons id' rest' => exact leaving_leaving e id id'

theorem caughtIn_outOf (e : Exception) (ids : List Path) (h : Heap) :
    (e.outOf ids).caughtIn h = e.caughtIn h := by
  cases ids with
  | nil => rfl
  | cons id rest => cases e <;> rfl

end Exception

/-- A variable of the innermost frame hides all others of its name. -/
theorem Script.Heap.lookup?_newFrame (h : Heap) (name : String) (b : Binding) (outer : Scope) :
    (h.newFrame [(name, b)]).2.lookup? (h.frames.size :: outer) name = some b.value := by
  have hframe : (h.newFrame [(name, b)]).2.frame h.frames.size = [(name, b)] := by
    simp [Heap.newFrame, Heap.frame]
  have hget : Dict.get? [(name, b)] name = some b := if_pos rfl
  simp only [Heap.lookup?, Heap.binding?, hframe, hget, Option.map_some]

theorem Plan.lookup?_handling (name : String) (e : Exception) (m : Machine) (outer : Scope) :
    (Plan.handling (some name) e m).heap.lookup?
      ((e.handlerFrame (some name) m.heap).2.frames.size :: outer) name =
        some (e.caughtIn m.heap).1 :=
  Heap.lookup?_newFrame _ _ _ _

/-- What a handler is given for a failure of the loader is made for it. -/
theorem Plan.object_handling (name : String) (fault : LoadFault) (m : Machine) :
    (Plan.handling (some name) (.load fault) m).heap.object m.heap.objects.size =
      [("name", .string "Error"), ("message", .string fault.message),
        ("code", .string fault.code)] := by
  simp [Plan.handling, Exception.handlerFrame, Exception.caughtIn, Heap.newFrame, Heap.newObject,
    Heap.object]

/-- A variable is bound to what a handler is given for an exception: to the very value that was
thrown, or to an object that tells of a failure of the loader. -/
def Script.Heap.Catches (h : Heap) (scope : Scope) (param : String) : Exception → Prop
  | .load fault => ∃ o, h.lookup? scope param = some (.object o) ∧
      h.object o = [("name", .string "Error"), ("message", .string fault.message),
        ("code", .string fault.code)]
  | .thrown v | .uncaught _ v => h.lookup? scope param = some v

/-- What the host is told of an exception that has left some modules: a failure of the loader as it
is, and of a value that was thrown, what it looks like and the first module that it left. -/
def Exception.Reported (e : Exception) (ids : List Path) (h : Heap) (fault : LoadFault) : Prop :=
  match e with
  | load own => fault = own
  | uncaught path v => fault = .uncaught path (h.thrownText v)
  | thrown v => ∃ path, ids.head? = some path ∧ fault = .uncaught path (h.thrownText v)

theorem Plan.catches_handling (param : String) (e : Exception) (ids : List Path) (m : Machine)
    (outer : Scope) : (Plan.handling (some param) (e.outOf ids) m).heap.Catches
      (((e.outOf ids).handlerFrame (some param) m.heap).2.frames.size :: outer) param e := by
  have hlookup := Plan.lookup?_handling param (e.outOf ids) m outer
  rw [Exception.caughtIn_outOf] at hlookup
  cases e with
  | thrown v => exact hlookup
  | uncaught path v => exact hlookup
  | load fault =>
    have hout : (Exception.load fault).outOf ids = .load fault := by cases ids <;> rfl
    rw [hout] at hlookup ⊢
    exact ⟨m.heap.objects.size, hlookup, Plan.object_handling param fault m⟩

namespace Stack

variable {n : Nat} {block : List Stmt} {param : Option String} {span : Span} {scope inner : Scope}

abbrev inFunction (n : Nat) {id : FunctionId} {this : Value} {args : List Value} {body : List Stmt}
    {inner : Scope} (below : Stack (.call (.function id) this args)) : Stack (.body body inner) :=
  .frame n (.call (.function id) this args) Plan.afterBody below

abbrev inModule (n : Nat) {reference : String} {dir : Path} {u : Module} {s : Strategy}
    (below : Stack (.load reference dir)) : Stack (.start u s) :=
  .frame n (.load reference dir) (Plan.conclude u) below

abbrev inBlock (n : Nat) {handler finalizer : Option (List Stmt)}
    (below : Stack (.statement (.try block param handler finalizer span) scope)) :
    Stack (.body block inner) :=
  .frame n (.statement (.try block param handler finalizer span) scope)
    (Plan.afterBlock param handler finalizer scope) below

abbrev inHandler (n : Nat) {handler : List Stmt} {finalizer : Option (List Stmt)}
    (below : Stack (.statement (.try block param (some handler) finalizer span) scope)) :
    Stack (.body handler inner) :=
  .frame n (.statement (.try block param (some handler) finalizer span) scope)
    (Plan.afterHandler finalizer scope) below

/-- A guarded statement waits for its finalizer, with an outcome on hold. -/
abbrev inFinalizer (n : Nat) (outcome : Except Exception Completion)
    {handler : Option (List Stmt)} {finalizer : List Stmt}
    (below : Stack (.statement (.try block param handler (some finalizer) span) scope)) :
    Stack (.body finalizer inner) :=
  .frame n (.statement (.try block param handler (some finalizer) span) scope)
    (Plan.passing (Plan.afterFinalizer outcome)) below

end Stack

namespace Moment

/-- Where an exception that ends a task leads, told for each reason why the task below it waits. -/
inductive Unwinds (e : Exception) : Moment → Moment → Prop where
  /-- A task that needs the result ends with the same exception. -/
  | passed {s t : Task} {n : Nat} {next : s.Result → Plan t.Result} {below : Stack t}
      {m : Machine} :
      Unwinds e (.leaving s (.error e) (.frame n t (Plan.passing next) below) m)
        (.leaving t (.error e) below m)
  /-- A script function ends with the same exception, and is left. -/
  | function {id : FunctionId} {this : Value} {args : List Value} {body : List Stmt}
      {inner : Scope} {n : Nat} {below : Stack (.call (.function id) this args)} {m : Machine} :
      Unwinds e (.leaving (.body body inner) (.error e) (.inFunction n below) m)
        (.leaving (.call (.function id) this args) (.error e) below { m with depth := m.depth - 1 })
  /-- A module fails; a value that was thrown is put down to it. -/
  | module {reference : String} {dir : Path} {u : Module} {s : Strategy} {n : Nat}
      {below : Stack (.load reference dir)} {m : Machine} :
      Unwinds e (.leaving (.start u s) (.error e) (.inModule n below) m)
        (.leaving (.load reference dir) (.error (Evaluate.leaving u.id e)) below
          (m.settle u.id .failed))
  /-- A handler is run, in a new scope with what it binds. -/
  | handled {block : List Stmt} {param : Option String} {handler : List Stmt}
      {finalizer : Option (List Stmt)} {span : Span} {scope inner : Scope} {n : Nat}
      {below : Stack (.statement (.try block param (some handler) finalizer span) scope)}
      {m : Machine} :
      Unwinds e (.leaving (.body block inner) (.error e) (.inBlock n below) m)
        (.entering n (.body handler ((e.handlerFrame param m.heap).2.frames.size :: scope))
          (.inHandler n below) (Plan.handling param e m))
  /-- Without a handler and a finalizer, a guarded statement ends with the same exception. -/
  | unguarded {block : List Stmt} {param : Option String} {span : Span} {scope inner : Scope}
      {n : Nat} {below : Stack (.statement (.try block param none none span) scope)}
      {m : Machine} :
      Unwinds e (.leaving (.body block inner) (.error e) (.inBlock n below) m)
        (.leaving (.statement (.try block param none none span) scope) (.error e) below m)
  /-- A finalizer is run, with the exception on hold. -/
  | finalizing {block finalizer : List Stmt} {param : Option String} {span : Span}
      {scope inner : Scope} {n : Nat}
      {below : Stack (.statement (.try block param none (some finalizer) span) scope)}
      {m : Machine} :
      Unwinds e (.leaving (.body block inner) (.error e) (.inBlock n below) m)
        (.entering n (.body finalizer (m.heap.frames.size :: scope))
          (.inFinalizer n (.error e) below) { m with heap := (m.heap.newFrame []).2 })
  /-- An exception of a handler ends a guarded statement that has no finalizer. -/
  | handlerEnded {block handler : List Stmt} {param : Option String} {span : Span}
      {scope inner : Scope} {n : Nat}
      {below : Stack (.statement (.try block param (some handler) none span) scope)} {m : Machine} :
      Unwinds e (.leaving (.body handler inner) (.error e) (.inHandler n below) m)
        (.leaving (.statement (.try block param (some handler) none span) scope) (.error e) below m)
  /-- A finalizer is run after a handler, with the exception of the handler on hold. -/
  | handlerFinalizing {block handler finalizer : List Stmt} {param : Option String} {span : Span}
      {scope inner : Scope} {n : Nat}
      {below : Stack (.statement (.try block param (some handler) (some finalizer) span) scope)}
      {m : Machine} :
      Unwinds e (.leaving (.body handler inner) (.error e) (.inHandler n below) m)
        (.entering n (.body finalizer (m.heap.frames.size :: scope))
          (.inFinalizer n (.error e) below) { m with heap := (m.heap.newFrame []).2 })

/-- An exception never rests: the task that waits ends as well, or runs a handler or a finalizer. -/
theorem unwinds_of_waits {E : Exception → Prop} {s t : Task}
    {next : Except Exception s.Result → Plan t.Result} (hw : Waits E t s next) (e : Exception)
    (n : Nat) (below : Stack t) (m : Machine) :
    ∃ b, (Moment.leaving s (.error e) (.frame n t next below) m).step = some b ∧
      Unwinds e (.leaving s (.error e) (.frame n t next below) m) b := by
  cases hw with
  | plain ht hs hnext => exact ⟨_, rfl, .passed⟩
  | finalizer he => exact ⟨_, rfl, .passed⟩
  | function => exact ⟨_, rfl, .function⟩
  | module => exact ⟨_, rfl, .module⟩
  | @block block param handler finalizer span scope inner =>
    match handler, finalizer with
    | some handler, finalizer =>
      refine ⟨_, ?_, .handled⟩
      simp only [step, Plan.advance_afterBlock_handled, Option.map_some, Pause.moment]
    | none, none => exact ⟨_, rfl, .unguarded⟩
    | none, some finalizer => exact ⟨_, rfl, .finalizing⟩
  | @handler block param handler finalizer span scope inner =>
    cases finalizer with
    | none => exact ⟨_, rfl, .handlerEnded⟩
    | some finalizer => exact ⟨_, rfl, .handlerFinalizing⟩

def Raises (e : Exception) : Moment → Prop
  | leaving _ r _ _ => r = .error e
  | _ => False

end Moment

/-- The module that an exception leaves when it passes from one task to the one that waits. -/
def Task.left (waiting ended : Task) : List Path :=
  if waiting.isLoad then (ended.module?.map Module.id).toList else []

namespace Moment

/-- An exception goes down the stack as far as some task that ends, leaving some modules, the first
first. All finalizers on its way end normally. -/
inductive Descends : Moment → List Path → Moment → Prop where
  | refl (a : Moment) : Descends a [] a
  | down {s t : Task} {e : Exception} {n : Nat} {next : Except Exception s.Result → Plan t.Result}
      {below : Stack t} {m m' : Machine} {r : Except Exception t.Result} {ids : List Path}
      {b : Moment}
      (hstep : (leaving s (.error e) (.frame n t next below) m).step = some (.leaving t r below m'))
      (hrest : Descends (.leaving t r below m') ids b) :
      Descends (.leaving s (.error e) (.frame n t next below) m) (t.left s ++ ids) b
  | finalizer {block finalizer : List Stmt} {param : Option String} {span : Span}
      {scope inner inner' : Scope} {e : Exception} {n n' : Nat}
      {below : Stack (.statement (.try block param none (some finalizer) span) scope)}
      {stack : Stack (.body finalizer inner')} {m m₁ m₂ m₃ : Machine}
      {r : Except Exception Completion} {ids : List Path} {b : Moment}
      (hstep : (leaving (.body block inner) (.error e) (.inBlock n below) m).step =
        some (.entering n' (.body finalizer inner') stack m₁))
      (hfinalizer : Steps (.entering n' (.body finalizer inner') stack m₁)
        (.leaving (.body finalizer inner') (.ok .normal) stack m₂))
      (hend : (leaving (.body finalizer inner') (.ok .normal) stack m₂).step =
        some (.leaving (.statement (.try block param none (some finalizer) span) scope) r below m₃))
      (hrest : Descends
        (.leaving (.statement (.try block param none (some finalizer) span) scope) r below m₃) ids
        b) :
      Descends (.leaving (.body block inner) (.error e) (.inBlock n below) m) ids b
  | handlerFinalizer {block handler finalizer : List Stmt} {param : Option String} {span : Span}
      {scope inner inner' : Scope} {e : Exception} {n n' : Nat}
      {below : Stack (.statement (.try block param (some handler) (some finalizer) span) scope)}
      {stack : Stack (.body finalizer inner')} {m m₁ m₂ m₃ : Machine}
      {r : Except Exception Completion} {ids : List Path} {b : Moment}
      (hstep : (leaving (.body handler inner) (.error e) (.inHandler n below) m).step =
        some (.entering n' (.body finalizer inner') stack m₁))
      (hfinalizer : Steps (.entering n' (.body finalizer inner') stack m₁)
        (.leaving (.body finalizer inner') (.ok .normal) stack m₂))
      (hend : (leaving (.body finalizer inner') (.ok .normal) stack m₂).step =
        some (.leaving (.statement (.try block param (some handler) (some finalizer) span) scope) r
          below m₃))
      (hrest : Descends
        (.leaving (.statement (.try block param (some handler) (some finalizer) span) scope) r
          below m₃) ids b) :
      Descends (.leaving (.body handler inner) (.error e) (.inHandler n below) m) ids b

theorem Descends.steps {a b : Moment} {ids : List Path} (h : Descends a ids b) : Steps a b := by
  induction h with
  | refl a => exact .refl
  | down hstep _ ih => exact .head hstep ih
  | finalizer hstep hfinalizer hend _ ih => exact .head hstep (hfinalizer.trans (.head hend ih))
  | handlerFinalizer hstep hfinalizer hend _ ih =>
    exact .head hstep (hfinalizer.trans (.head hend ih))

/-- One task further down, the exception is the same, up to the module it left. -/
theorem result_of_waits {E : Exception → Prop} {s t : Task}
    {next : Except Exception s.Result → Plan t.Result} (hw : Waits E t s next) {e : Exception}
    {n : Nat} {below : Stack t} {m m' : Machine} {r : Except Exception t.Result}
    (h : (leaving s (.error e) (.frame n t next below) m).step = some (.leaving t r below m')) :
    r = .error (e.outOf (t.left s)) := by
  cases hw with
  | plain ht hs hnext =>
    cases h
    rw [Task.left, ht]
    rfl
  | finalizer he =>
    cases h
    rfl
  | function =>
    cases h
    rfl
  | module =>
    cases h
    rfl
  | @block block param handler finalizer span scope inner =>
    match handler, finalizer with
    | some handler, finalizer =>
      simp only [step, Plan.advance_afterBlock_handled, Option.map_some, Pause.moment] at h
      cases h
    | none, none =>
      cases h
      rfl
    | none, some finalizer => cases h
  | @handler block param handler finalizer span scope inner =>
    cases finalizer with
    | none =>
      cases h
      rfl
    | some finalizer => cases h

theorem Descends.raises {a b : Moment} {ids : List Path} (h : Descends a ids b)
    (ha : Reachable a) {e : Exception} (hraises : a.Raises e) : b.Raises (e.outOf ids) := by
  induction h generalizing e with
  | refl a => exact hraises
  | down hstep _ ih =>
    cases hraises
    obtain ⟨-, ⟨hw, -⟩, -⟩ := ha.sound
    have hb := ih (ha.leads (.single (.step hstep))) (result_of_waits hw hstep)
    rwa [Exception.outOf_append] at hb
  | finalizer hstep hfinalizer hend _ ih =>
    cases hraises
    cases hstep
    cases hend
    exact ih (ha.leads (.head (.step rfl) (hfinalizer.leads.tail (.step rfl)))) rfl
  | handlerFinalizer hstep hfinalizer hend _ ih =>
    cases hraises
    cases hstep
    cases hend
    exact ih (ha.leads (.head (.step rfl) (hfinalizer.leads.tail (.step rfl)))) rfl

/-- A request of the host that ends in an exception fails with it. -/
theorem loadIn_of_steps {m m' : Machine} {n : Nat} {reference : String} {dir : Path}
    {e : Exception} (h : Steps
      (.entering n (.load reference dir) (.bottom _) (m.rested m.loader.callDepth))
      (.leaving (.load reference dir) (.error e) (.bottom _) m')) :
    m.loadIn n reference dir = some (.error (e.toLoadFault m'.heap dir), m') := by
  have hrun : (m.rested m.loader.callDepth).run (Evaluate.load n reference dir) =
      some (.error e, m') := steps_iff_perform.mp h
  unfold Machine.loadIn
  rw [hrun]

/-- A loading does not end in a value that was merely thrown, and a module that a value was thrown
out of is registered and has failed. -/
theorem Reachable.explains {s : Task} {e : Exception} {stack : Stack s} {m : Machine}
    (h : Reachable (.leaving s (.error e) stack m)) :
    m.loader.Explains e ∧ (s.isLoad = true → e.isThrown = false) := by
  obtain ⟨-, -, hfits⟩ := h.sound
  exact hfits e rfl

theorem Descends.caught {a : Moment} {ids : List Path} {e : Exception} {block : List Stmt}
    {param : String} {handler : List Stmt} {finalizer : Option (List Stmt)} {span : Span}
    {scope inner : Scope} {n : Nat} {m : Machine} {r : Except Exception Completion}
    {below : Stack (.statement (.try block (some param) (some handler) finalizer span) scope)}
    (h : Descends a ids (.leaving (.body block inner) r (.inBlock n below) m))
    (ha : Reachable a) (hraises : a.Raises e) :
    ∃ frame m', (leaving (.body block inner) r (.inBlock n below) m).step =
        some (.entering n (.body handler (frame :: scope)) (.inHandler n below) m') ∧
      m'.heap.Catches (frame :: scope) param e := by
  have hr : r = .error (e.outOf ids) := h.raises ha hraises
  subst hr
  refine ⟨_, _, ?_, Plan.catches_handling param e ids m scope⟩
  simp only [step, Plan.advance_afterBlock_handled, Option.map_some, Pause.moment]

theorem Descends.reported {s : Task} {e : Exception} {stack : Stack s} {m m₀ m' : Machine}
    {ids : List Path} {n : Nat} {reference : String} {dir : Path} {r : Except Exception Value}
    (hstart : Steps (.entering n (.load reference dir) (.bottom _) (m₀.rested m₀.loader.callDepth))
      (.leaving s (.error e) stack m))
    (h : Descends (.leaving s (.error e) stack m) ids
      (.leaving (.load reference dir) r (.bottom _) m'))
    (ha : Reachable (.leaving s (.error e) stack m)) :
    ∃ fault, m₀.loadIn n reference dir = some (.error fault, m') ∧
      e.Reported ids m'.heap fault ∧
      ∀ path message, fault = .uncaught path message →
        ∃ u ∈ m'.loader.registry.modules, u.id = path ∧ u.state = .failed := by
  have hr : r = .error (e.outOf ids) := h.raises ha rfl
  subst hr
  obtain ⟨hexplains, hthrown⟩ := (ha.leads h.steps.leads).explains
  refine ⟨_, loadIn_of_steps (hstart.trans h.steps), ?_, ?_⟩
  · cases e with
    | load own => cases ids <;> rfl
    | uncaught path v => cases ids <;> rfl
    | thrown v =>
      cases ids with
      | nil => cases hthrown rfl
      | cons path rest => exact ⟨path, rfl, rfl⟩
  · intro path message hfault
    generalize e.outOf ids = e' at hexplains hthrown hfault
    cases e' with
    | thrown v => cases hthrown rfl
    | load fault => exact absurd hfault (hexplains path message)
    | uncaught path' v =>
      obtain ⟨rfl, -⟩ := LoadFault.uncaught.inj hfault
      exact hexplains

/-- Exceptions cross modules unchanged. Each task that waits passes an exception on as `Unwinds`
says: the loading of a module puts a thrown value down to it, and nothing else changes it. However
far it goes, it is what it was, put down to the first module that it left if it was thrown; a
handler binds the thrown value itself, and the host is told of it. No loading ends in a value that
was merely thrown, and what is put down to a module is put down to one that has failed. -/
theorem failures_cross_modules_unchanged {s : Task} {e : Exception} {stack : Stack s} {m : Machine}
    (h : Reachable (.leaving s (.error e) stack m)) :
    (∀ {n t next below}, stack = .frame n t next below →
      ∃ b, (leaving s (.error e) stack m).step = some b ∧
        Unwinds e (.leaving s (.error e) stack m) b) ∧
    (∀ {ids b}, Descends (.leaving s (.error e) stack m) ids b → b.Raises (e.outOf ids)) ∧
    (∀ {ids block param handler finalizer span scope inner n m' r}
      {below : Stack (.statement (.try block (some param) (some handler) finalizer span) scope)},
      Descends (.leaving s (.error e) stack m) ids
          (.leaving (.body block inner) r (.inBlock n below) m') →
        ∃ frame m'', (leaving (.body block inner) r (.inBlock n below) m').step =
            some (.entering n (.body handler (frame :: scope)) (.inHandler n below) m'') ∧
          m''.heap.Catches (frame :: scope) param e) ∧
    (∀ {ids n reference dir r} {m₀ m' : Machine},
      Steps (.entering n (.load reference dir) (.bottom _) (m₀.rested m₀.loader.callDepth))
          (.leaving s (.error e) stack m) →
        Descends (.leaving s (.error e) stack m) ids
          (.leaving (.load reference dir) r (.bottom _) m') →
        ∃ fault, m₀.loadIn n reference dir = some (.error fault, m') ∧
          e.Reported ids m'.heap fault ∧
          ∀ path message, fault = .uncaught path message →
            ∃ u ∈ m'.loader.registry.modules, u.id = path ∧ u.state = .failed) ∧
    (s.isLoad = true → e.isThrown = false) ∧
    ∀ path v, e = .uncaught path v →
      ∃ u ∈ m.loader.registry.modules, u.id = path ∧ u.state = .failed := by
  refine ⟨?_, fun hd => hd.raises h rfl, fun hd => hd.caught h rfl,
    fun hstart hd => hd.reported hstart h, h.explains.2, ?_⟩
  · rintro n t next below rfl
    obtain ⟨-, ⟨hw, -⟩, -⟩ := h.sound
    exact unwinds_of_waits hw e n below m
  · rintro path v rfl
    exact h.explains.1

theorem failures_cross_modules_unchanged_sample : ∃ fault m',
    Sample.machine.loadIn 60 "./throws" ⟨"/"⟩ = some (.error fault, m') ∧
      (Exception.thrown .null).Reported [⟨"/throws.js"⟩] m'.heap fault := by
  let m₀ := Sample.machine.rested Sample.machine.loader.callDepth
  let m₁ := (Plan.seeking "./throws" ⟨"/"⟩ m₀).enrol ⟨"/throws.js"⟩
  let u := (Module.create m₀.heap ⟨"/throws.js"⟩).1
  let m₂ := m₁.note (.started u.id .script)
  let stack : Stack (.start u .script) := .inModule 59 (.bottom (.load "./throws" ⟨"/"⟩))
  have hres : m₀.loader.resolve "./throws" ⟨"/"⟩ = .ok ⟨"/throws.js"⟩ :=
    Sample.eq_ok_of_toOption (by decide +kernel)
  have hstrategy : m₁.loader.strategyFor? u.id = some .script := by decide +kernel
  have hbegin : (entering 60 (.load "./throws" ⟨"/"⟩) (.bottom _) m₀).step =
      some (.entering 59 (.start u .script) stack m₂) := by
    have hadvance :=
      (Plan.advance_ofLoad_new hres rfl).trans (Plan.advance_loadNew_started hstrategy)
    show (((Plan.ofLoad "./throws" ⟨"/"⟩).advance m₀).map _) = _
    rw [hadvance]
    rfl
  have hthrows : (m₂.run (Evaluate.perform 59 (.start u .script))).any
      (fun q => Sample.throwsNull q.1) = true := by
    decide +kernel
  obtain ⟨⟨r, m₃⟩, hrun, hr⟩ := (Option.any_eq_true ..).mp hthrows
  obtain rfl := Sample.eq_of_throwsNull hr
  have hsteps : Steps (.entering 60 (.load "./throws" ⟨"/"⟩) (.bottom _) m₀)
      (.leaving (.start u .script) (.error (.thrown .null)) stack m₃) :=
    .head hbegin (steps_of_perform hrun stack)
  have hreach : Reachable (.leaving (.start u .script) (.error (.thrown .null)) stack m₃) :=
    Sample.reachable.leads (.head (.meddled rfl rfl) (.head (.requested rfl) hsteps.leads))
  obtain ⟨-, -, -, hhost, -⟩ := failures_cross_modules_unchanged hreach
  obtain ⟨fault, hload, hreported, -⟩ := hhost hsteps (.down rfl (.refl _))
  exact ⟨fault, _, hload, hreported⟩

end Moment

end ModuleLoader
