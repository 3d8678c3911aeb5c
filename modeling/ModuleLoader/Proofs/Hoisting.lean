import ModuleLoader.Proofs.Delegation
import ModuleLoader.Proofs.Exits

/-! What becomes of function declarations. When a list of statements is begun, the functions that it
declares are bound in the own frame of its scope, and the names stay bound there. To execute a
declaration binds nothing: one that is the only statement of a branch or a loop is in no list, and
so its name is not bound at all. -/
namespace ModuleLoader

open Script

namespace Script

/-- A function declaration among the statements has the name. -/
def Declares (statements : List Stmt) (name : String) (literal : FunctionDef) : Prop :=
  .function literal ∈ statements ∧ literal.name = some name

namespace Heap

variable {h h₁ h' : Heap} {id : FrameId} {outer : Scope} {rest : List Stmt}

/-- The name is bound in the frame to a function made of the literal in the scope. -/
def BindsFunction (h : Heap) (id : FrameId) (name : String) (literal : FunctionDef)
    (scope : Scope) : Prop :=
  ∃ f, (h.frame id).get? name = some ⟨.function f, true⟩ ∧ h.closure f = ⟨literal, scope⟩

/-- From one heap to the other, the names that the statements declare were bound in the own frame of
a scope, to functions made of their declarations. Nothing else was bound there, and the functions of
the first heap are as they were. -/
structure Hoisted (h h' : Heap) (id : FrameId) (outer : Scope) (statements : List Stmt) : Prop where
  bound : ∀ name literal, Declares statements name literal →
    ∃ literal', Declares statements name literal' ∧ h'.BindsFunction id name literal' (id :: outer)
  others : ∀ name, (∀ literal, ¬Declares statements name literal) →
    (h'.frame id).get? name = (h.frame id).get? name
  closures : ∀ f < h.closures.size, h'.closure f = h.closure f

theorem hoisted_nil : h.Hoisted h id outer [] where
  bound _ _ hdeclares := nomatch hdeclares.1
  others _ _ := rfl
  closures _ _ := rfl

/-- A statement that declares no name makes no difference. -/
theorem Hoisted.skip {s : Stmt} (hs : ∀ name literal, ¬Declares [s] name literal)
    (hrest : h.Hoisted h' id outer rest) : h.Hoisted h' id outer (s :: rest) := by
  have hdeclares (name : String) (literal : FunctionDef) :
      Declares (s :: rest) name literal ↔ Declares rest name literal := by
    refine ⟨fun h => ⟨?_, h.2⟩, fun h => ⟨List.mem_cons_of_mem _ h.1, h.2⟩⟩
    refine (List.mem_cons.mp h.1).resolve_left ?_
    rintro rfl
    exact hs name literal ⟨List.mem_singleton_self _, h.2⟩
  refine ⟨fun name literal hliteral => ?_, fun name hnone => hrest.others name fun literal h => ?_,
    hrest.closures⟩
  · obtain ⟨literal', hliteral', hbinds⟩ := hrest.bound name literal ((hdeclares _ _).mp hliteral)
    exact ⟨literal', (hdeclares _ _).mpr hliteral', hbinds⟩
  · exact hnone literal ((hdeclares _ _).mpr h)

/-- The heap in which a function was made of the literal and bound to its name. -/
def bindFunction (h : Heap) (id : FrameId) (outer : Scope) (name : String)
    (literal : FunctionDef) : Heap :=
  (h.newClosure ⟨literal, id :: outer⟩).2.declare id name (.function h.closures.size) true

theorem closure_bindFunction_new (name : String) (literal : FunctionDef) :
    (h.bindFunction id outer name literal).closure h.closures.size = ⟨literal, id :: outer⟩ :=
  getD_push_size ..

theorem closure_bindFunction {f : FunctionId} (hf : f < h.closures.size) (name : String)
    (literal : FunctionDef) : (h.bindFunction id outer name literal).closure f = h.closure f :=
  getD_push_of_lt hf _ _

theorem get?_bindFunction (hid : id < h.frames.size) (name : String) (literal : FunctionDef)
    (other : String) : ((h.bindFunction id outer name literal).frame id).get? other =
      if name = other then some ⟨.function h.closures.size, true⟩ else (h.frame id).get? other := by
  have hframe : (h.bindFunction id outer name literal).frame id =
      (h.frame id).insert name ⟨.function h.closures.size, true⟩ :=
    frame_declare (h := (h.newClosure _).2) hid name _ true
  rw [hframe, Dict.get?_insert]

/-- A declaration binds its name first; those behind it may bind the name once more. -/
theorem Hoisted.cons {literal : FunctionDef} {name : String} (hname : literal.name = some name)
    (hid : id < h.frames.size)
    (hrest : (h.bindFunction id outer name literal).Hoisted h' id outer rest) :
    h.Hoisted h' id outer (.function literal :: rest) := by
  have hsize : h.closures.size < (h.bindFunction id outer name literal).closures.size := by
    simp [bindFunction, declare, modifyFrame, newClosure]
  have hthis : Declares (.function literal :: rest) name literal :=
    ⟨List.mem_cons_self .., hname⟩
  have hmore {name' : String} {literal' : FunctionDef} (h : Declares rest name' literal') :
      Declares (.function literal :: rest) name' literal' :=
    ⟨List.mem_cons_of_mem _ h.1, h.2⟩
  refine ⟨fun name' literal' hliteral => ?_, fun name' hnone => ?_, fun f hf => ?_⟩
  · by_cases hlater : ∃ literal₂, Declares rest name' literal₂
    · obtain ⟨literal₂, hliteral₂⟩ := hlater
      obtain ⟨literal₃, hliteral₃, hbinds⟩ := hrest.bound name' literal₂ hliteral₂
      exact ⟨literal₃, hmore hliteral₃, hbinds⟩
    · -- No declaration behind this one has the name, so the binding that it made is the last.
      obtain hhead | htail := List.mem_cons.mp hliteral.1
      · obtain rfl := Stmt.function.inj hhead
        obtain rfl := Option.some.inj (hname.symm.trans hliteral.2)
        refine ⟨literal', hthis, h.closures.size, ?_, ?_⟩
        · rw [hrest.others name fun l hl => hlater ⟨l, hl⟩, get?_bindFunction hid, if_pos rfl]
        · rw [hrest.closures _ hsize, closure_bindFunction_new]
      · exact absurd ⟨literal', htail, hliteral.2⟩ hlater
  · have hne : name ≠ name' := by
      rintro rfl
      exact hnone literal hthis
    rw [hrest.others name' fun l hl => hnone l (hmore hl), get?_bindFunction hid, if_neg hne]
  · rw [hrest.closures f (Nat.lt_trans hf hsize), closure_bindFunction hf]

/-- A name in the own frame of a scope is found in the scope. -/
theorem lookup?_of_contains {name : String} (hname : (h.frame id).contains name = true) :
    ∃ b, (h.frame id).get? name = some b ∧ h.lookup? (id :: outer) name = some b.value := by
  obtain ⟨b, hb⟩ := Option.isSome_iff_exists.mp hname
  refine ⟨b, hb, ?_⟩
  rw [lookup?, binding?, hb]
  rfl

theorem BindsFunction.contains {name : String} {literal : FunctionDef} {scope : Scope}
    (hbinds : h.BindsFunction id name literal scope) : (h.frame id).contains name = true := by
  obtain ⟨f, hf, -⟩ := hbinds
  rw [Dict.contains, hf]
  rfl

end Heap

end Script

/-- The functions that a list declares are bound whatever the list is, and that never fails. -/
theorem Machine.run_hoist {m : Machine} {id : FrameId} (hid : id < m.heap.frames.size)
    (outer : Scope) (statements : List Stmt) :
    ∃ h', m.run (Evaluate.hoist (id :: outer) statements) = some (.ok (), { m with heap := h' }) ∧
      m.heap.Hoisted h' id outer statements := by
  induction statements generalizing m with
  | nil => exact ⟨m.heap, rfl, Heap.hoisted_nil⟩
  | cons s rest ih =>
    cases s with
    | function literal =>
      cases hname : literal.name with
      | none =>
        obtain ⟨h', hrun, hrest⟩ := ih hid
        refine ⟨h', ?_, hrest.skip fun name literal' hdeclares => ?_⟩
        · rw [Evaluate.hoist, hname]
          exact hrun
        · obtain rfl := Stmt.function.inj (List.mem_singleton.mp hdeclares.1)
          cases hname.symm.trans hdeclares.2
      | some name =>
        have hgrows := (Heap.Grows.of_frames_eq rfl).trans
          ((m.heap.newClosure ⟨literal, id :: outer⟩).2.grows_declare id name
            (.function m.heap.closures.size) true)
        obtain ⟨h', hrun, hrest⟩ :=
          @ih { m with heap := m.heap.bindFunction id outer name literal }
            (Nat.lt_of_lt_of_le hid hgrows.frames)
        refine ⟨h', ?_, hrest.cons hname hid⟩
        rw [Evaluate.hoist, hname]
        exact hrun
    | _ =>
      obtain ⟨h', hrun, hrest⟩ := ih hid
      refine ⟨h', hrun, hrest.skip fun name literal hdeclares => ?_⟩
      cases List.mem_singleton.mp hdeclares.1

namespace Plan

/-- The first statement of a list is asked for in the machine that was there. -/
theorem advance_sequence (scope : Scope) (statements : List Stmt) (m : Machine) :
    ∃ q, (sequence scope statements).advance m = some (q, m) := by
  cases statements with
  | nil => exact ⟨_, rfl⟩
  | cons s rest => exact ⟨_, rfl⟩

end Plan

namespace Moment

/-- The step that begins a list of statements binds what the list declares. -/
theorem hoisted_of_step {n : Nat} {statements : List Stmt} {id : FrameId} {outer : Scope}
    {below : Stack (.body statements (id :: outer))} {m : Machine} (hid : id < m.heap.frames.size)
    {begun : Moment}
    (h : (entering (n + 1) (.body statements (id :: outer)) below m).step = some begun) :
    m.heap.Hoisted begun.machine.heap id outer statements := by
  obtain ⟨h', hrun, hhoisted⟩ := Machine.run_hoist hid outer statements
  obtain ⟨q, hq⟩ := Plan.advance_sequence (id :: outer) statements { m with heap := h' }
  have hadvance : (Plan.ofBody statements (id :: outer)).advance m =
      some (q, { m with heap := h' }) := (Plan.advance_act hrun).trans hq
  obtain ⟨⟨q', m'⟩, hq', rfl⟩ := Option.map_eq_some_iff.mp h
  obtain ⟨rfl, rfl⟩ := Prod.mk.inj (Option.some.inj (hadvance.symm.trans hq'))
  cases q <;> exact hhoisted

/-- Since a list was begun, the names that it declares are bound in the own frame of its scope, at
first to functions that were made of their declarations. -/
theorem Serves.bound_since {n : Nat} {statements : List Stmt} {id : FrameId} {outer : Scope}
    {below : Stack (.body statements (id :: outer))} {m : Machine}
    (ha : (entering (n + 1) (.body statements (id :: outer)) below m).Serves) {begun : Moment}
    (h : (entering (n + 1) (.body statements (id :: outer)) below m).step = some begun)
    {name : String} {literal : FunctionDef} (hliteral : Declares statements name literal) :
    (∃ literal', Declares statements name literal' ∧
      begun.machine.heap.BindsFunction id name literal' (id :: outer)) ∧
    ∀ a, Steps begun a → (a.machine.heap.frame id).contains name = true := by
  obtain ⟨_, _, hscope, hid⟩ := ha.1
  obtain ⟨rfl, rfl⟩ := List.cons.inj hscope
  obtain ⟨literal', hliteral', hbinds⟩ := (hoisted_of_step hid h).bound name literal hliteral
  refine ⟨⟨literal', hliteral', hbinds⟩, fun a hsteps => ?_⟩
  obtain ⟨-, hgrows⟩ := hsteps.serves (ha.step h).1
  exact hgrows.names id name hbinds.contains

/-- The moments that a number of steps lead to. -/
def after : Nat → Moment → Option Moment
  | 0, a => some a
  | n + 1, a => a.step.bind (after n)

theorem steps_of_after {n : Nat} {a b : Moment} (h : a.after n = some b) : Steps a b := by
  induction n generalizing a with
  | zero =>
    obtain rfl := Option.some.inj h
    exact .refl
  | succ n ih =>
    obtain ⟨c, hstep, hafter⟩ := Option.bind_eq_some_iff.mp h
    exact .head hstep (ih hafter)

end Moment

namespace Script.Program

variable {source : String} {p : Program}

/-- What the host may ask for: to run the script in a scope with a frame of its own, to call a
function, and to load a module. -/
inductive Request (p : Program) (h : Heap) : Task → Prop where
  | run {id : FrameId} (outer : Scope) (hid : id < h.frames.size) :
      Request p h (.body p.statements (id :: outer))
  | call (f this : Value) (args : List Value) : Request p h (.call f this args)
  | load (reference : String) (dir : Path) : Request p h (.load reference dir)

theorem Request.serves {t : Task} {m : Machine} (ht : p.Request m.heap t) (n : Nat) :
    (Moment.entering n t (.bottom t) m).Serves := by
  refine ⟨?_, trivial⟩
  cases ht with
  | run outer hid => exact ⟨_, outer, rfl, hid⟩
  | call | load => trivial

theorem Request.keeps (h : ofSource source = .ok p) {t : Task} {m : Machine}
    (ht : p.Request m.heap t) (n : Nat) :
    (Moment.entering n t (.bottom t) m).Keeps (Regime.trees m.heap.Foreign).contract := by
  refine ⟨m.heap.made_from_foreign, ?_, trivial⟩
  cases ht with
  | run => exact ⟨fun s hs => .inl (fits_of_ofSource h s hs).1, trivial⟩
  | call | load => trivial

/-- Whenever control reaches a function declaration, in a run of an accepted script, of a function
or of a module, the declaration has a name, unless it came with the heap in a function that no
script has. It stands in a list of statements that is being executed in the scope, or it is the only
statement of a branch or a loop; either way nothing is bound when it is executed. But if it stands
in a list, its name was bound in the own frame of the scope when the list was begun, to a function
that was made there for a declaration of that name in the list, and it is bound there ever since: so
it is found there, whatever was assigned to it. -/
theorem declaration_bound_or_single (h : ofSource source = .ok p) {t : Task} {m : Machine}
    (ht : p.Request m.heap t) {n k : Nat} {literal : FunctionDef} {scope : Scope}
    {stack : Stack (.statement (.function literal) scope)} {m' : Machine}
    (hsteps : Moment.Steps (.entering n t (.bottom t) m)
      (.entering k (.statement (.function literal) scope) stack m')) :
    (literal.name.isSome ∨ m.heap.Foreign (.stmt (.function literal))) ∧
    (∀ b, (Moment.entering k (.statement (.function literal) scope) stack m').step = some b →
      b.machine = m') ∧
    ((∃ j s scope' next below, stack = .frame j (.statement s scope') next below ∧
        (Stmt.function literal).SingleIn s) ∨
      ∃ j statements next below id outer m₁ begun,
        stack = .frame j (.body statements scope) next below ∧
        .function literal ∈ statements ∧ scope = id :: outer ∧
        Moment.Steps (.entering n t (.bottom t) m)
          (.entering (j + 1) (.body statements scope) below m₁) ∧
        (Moment.entering (j + 1) (.body statements scope) below m₁).step = some begun ∧
        Moment.Steps begun (.entering k (.statement (.function literal) scope) stack m') ∧
        ∀ name, literal.name = some name →
          (∃ literal', Declares statements name literal' ∧
            begun.machine.heap.BindsFunction id name literal' scope) ∧
          (∀ a, Moment.Steps begun a → (a.machine.heap.frame id).contains name = true) ∧
          ∃ b, (m'.heap.frame id).get? name = some b ∧
            m'.heap.lookup? scope name = some b.value) := by
  refine ⟨?_, ?_, ?_⟩
  · obtain ⟨-, ⟨hformed, -⟩, -⟩ :=
      hsteps.keeps (Regime.lawful_trees m.heap.closed_foreign).kept (ht.keeps h n)
    exact hformed.imp_left fun hformed => (Node.everywhere_iff.mp hformed).1.1
  · intro b hb
    cases k with
    | zero => contradiction
    | succ k =>
      obtain rfl := Option.some.inj hb
      rfl
  · obtain ⟨⟨-, hstack⟩, -⟩ := hsteps.serves (ht.serves n)
    have hentered := hsteps.entered
    cases stack with
    | bottom =>
      obtain ⟨n', m₁, hstart⟩ := hentered
      obtain ⟨-, rfl, -⟩ := Moment.entering.inj hstart
      cases ht
    | frame j t' next below =>
      obtain ⟨hdelegates, -⟩ := hstack
      obtain ⟨statements, rfl, hmem⟩ | ⟨s, scope', rfl, hsingle⟩ := hdelegates
      · obtain ⟨⟨m₁, begun, hbefore, hbegun, hnow⟩, -⟩ := hentered
        obtain ⟨hserves, -⟩ := hbefore.serves (ht.serves n)
        obtain ⟨id, outer, rfl, -⟩ := hserves.1
        refine .inr ⟨j, statements, next, below, id, outer, m₁, begun, rfl, hmem, rfl, hbefore,
          hbegun, hnow, fun name hname => ?_⟩
        obtain ⟨hbound, hsince⟩ := hserves.bound_since hbegun ⟨hmem, hname⟩
        exact ⟨hbound, hsince, Heap.lookup?_of_contains (hsince _ hnow)⟩
      · exact .inl ⟨j, s, scope', next, below, rfl, hsingle⟩

end Script.Program

namespace Sample

/-- A function declared in the block that a loop turns, and one that is a branch. -/
def declaring : String :=
  "while (true) \x7b function f() \x7b\x7d break; \x7d if (true) function g() \x7b\x7d"

/-- A function of the name is about to be declared in a list of statements; or else alone, and then
the name is not bound. -/
def declares (name : String) (listed : Bool) : Moment → Bool
  | .entering _ (.statement (.function literal) scope) (.frame _ t _ _) m =>
    literal.name == some name && t.isStatement == !listed &&
      (listed || (m.heap.lookup? scope name).isNone)
  | _ => false

/-- The moment that a number of steps lead to in a run of the script. -/
theorem reaches_declaration (name : String) (listed : Bool) (n : Nat)
    (h : ((Program.ofSource declaring).toOption.any fun p =>
      (Moment.after n (.entering 60 (.body p.statements globalScope) (.bottom _) machine)).any
        (declares name listed)) = true) :
    ∃ p, Program.ofSource declaring = .ok p ∧ ∃ k literal scope j t next below m',
      Moment.Steps (.entering 60 (.body p.statements globalScope) (.bottom _) machine)
        (.entering k (.statement (.function literal) scope) (.frame j t next below) m') ∧
      literal.name = some name ∧ t.isStatement = !listed ∧
      (listed = false → m'.heap.lookup? scope name = none) := by
  obtain ⟨p, hp, h⟩ := (Option.any_eq_true ..).mp h
  obtain ⟨a, ha, h⟩ := (Option.any_eq_true ..).mp h
  refine ⟨p, eq_ok_of_toOption hp, ?_⟩
  unfold declares at h
  split at h
  · rename_i k literal scope j t next below m
    simp only [Bool.and_eq_true, beq_iff_eq] at h
    obtain ⟨⟨hname, ht⟩, hlookup⟩ := h
    refine ⟨k, literal, scope, j, t, next, below, m, Moment.steps_of_after ha, hname, ht, ?_⟩
    rintro rfl
    simpa using hlookup
  · contradiction

end Sample

theorem Script.Program.declaration_bound_or_single_sample : ∃ p,
    Program.ofSource Sample.declaring = .ok p ∧ ∃ k literal scope stack m',
      Moment.Steps (.entering 60 (.body p.statements globalScope) (.bottom _) Sample.machine)
        (.entering k (.statement (.function literal) scope) stack m') ∧
      literal.name = some "f" ∧ ∃ v, m'.heap.lookup? scope "f" = some v := by
  obtain ⟨p, hp, k, literal, scope, j, t, next, below, m', hsteps, hname, ht, -⟩ :=
    Sample.reaches_declaration "f" true 6 (by decide +kernel)
  refine ⟨p, hp, k, literal, scope, _, m', hsteps, hname, ?_⟩
  obtain ⟨-, -, hsingle | hlisted⟩ := declaration_bound_or_single hp
    (.run [] (by decide)) hsteps
  · obtain ⟨j', s, scope', next', below', hstack, -⟩ := hsingle
    cases hstack
    cases ht
  · obtain ⟨_, _, _, _, _, _, _, _, -, -, -, -, -, -, hnamed⟩ := hlisted
    obtain ⟨-, -, b, -, hlookup⟩ := hnamed "f" hname
    exact ⟨b.value, hlookup⟩

/-- A declaration that is a branch is reached, and its name is not bound. -/
theorem Script.Program.declaration_unbound : ∃ p,
    Program.ofSource Sample.declaring = .ok p ∧ ∃ k literal scope stack m',
      Moment.Steps (.entering 60 (.body p.statements globalScope) (.bottom _) Sample.machine)
        (.entering k (.statement (.function literal) scope) stack m') ∧
      literal.name = some "g" ∧ m'.heap.lookup? scope "g" = none := by
  obtain ⟨p, hp, k, literal, scope, j, t, next, below, m', hsteps, hname, -, hlookup⟩ :=
    Sample.reaches_declaration "g" false 16 (by decide +kernel)
  exact ⟨p, hp, k, literal, scope, _, m', hsteps, hname, hlookup rfl⟩

end ModuleLoader
