import ModuleLoader.Loading.Module

/-!
The registry of modules, in the order in which they were first asked for. Identifiers are paths
and are compared by components. An entry is never removed, and never replaced by another; only its
state changes. Each look-up counts as a hit or as a miss.
-/
namespace ModuleLoader

open Script

/-- The module, in another state if it is the one with an identifier. -/
def Module.withState (m : Module) (id : Path) (state : ModuleState) : Module :=
  if m.id.same id then { m with state } else m

namespace Module

variable {m : Module} {id : Path} {state : ModuleState}

theorem withState_of_same (h : m.id.same id = true) : m.withState id state = { m with state } :=
  if_pos h

theorem withState_of_not_same (h : m.id.same id = false) : m.withState id state = m := by
  rw [withState, h]
  rfl

@[simp] theorem withState_id : (m.withState id state).id = m.id := by
  rw [withState]
  split <;> rfl

@[simp] theorem withState_object : (m.withState id state).object = m.object := by
  rw [withState]
  split <;> rfl

end Module

/-- The modules of a loader, and how often look-ups found one. -/
structure Registry where
  modules : List Module
  hits : Nat
  misses : Nat
deriving Repr, DecidableEq

namespace Registry

def empty : Registry :=
  ⟨[], 0, 0⟩

def find? (r : Registry) (id : Path) : Option Module :=
  r.modules.find? fun m => m.id.same id

theorem find?_some {r : Registry} {id : Path} {m : Module} (h : r.find? id = some m) :
    m ∈ r.modules ∧ m.id.same id = true :=
  ⟨List.mem_of_find?_eq_some h, List.find?_some (p := fun m : Module => m.id.same id) h⟩

theorem find?_eq_none {r : Registry} {id : Path} :
    r.find? id = none ↔ ∀ m ∈ r.modules, m.id.same id = false := by
  simp only [find?, List.find?_eq_none, Bool.not_eq_true]

def contains (r : Registry) (id : Path) : Bool :=
  (r.find? id).isSome

def size (r : Registry) : Nat :=
  r.modules.length

def identifiers (r : Registry) : List Path :=
  r.modules.map Module.id

/-- The module with an identifier, and the registry with this look-up counted. -/
def lookup (r : Registry) (id : Path) : Option Module × Registry :=
  match r.find? id with
  | some m => (some m, { r with hits := r.hits + 1 })
  | none => (none, { r with misses := r.misses + 1 })

def append (r : Registry) (m : Module) : Registry :=
  { r with modules := r.modules ++ [m] }

/-- Adds a module unless its identifier is taken; says whether it was added. -/
def insert (r : Registry) (m : Module) : Bool × Registry :=
  if r.contains m.id then (false, r) else (true, r.append m)

/-- What a request for an identifier meets. -/
inductive Answer where
  /-- A module registered before. -/
  | hit (m : Module)
  /-- A module registered by this request. -/
  | registered (m : Module)

/-- The module with an identifier, registered if there was none; the look-up is counted. -/
def demand (r : Registry) (h : Heap) (id : Path) : Answer × Registry × Heap :=
  match r.lookup id with
  | (some m, r) => (.hit m, r, h)
  | (none, r) =>
    let (m, h) := Module.create h id
    (.registered m, r.append m, h)

def setState (r : Registry) (id : Path) (state : ModuleState) : Registry :=
  { r with modules := r.modules.map fun m => m.withState id state }

theorem identifiers_setState (r : Registry) (id : Path) (state : ModuleState) :
    (r.setState id state).identifiers = r.identifiers := by
  unfold identifiers setState
  rw [List.map_map]
  exact List.map_congr_left fun u _ => Module.withState_id

/-- The fraction of look-ups that found a module; zero before the first. -/
def hitFraction (r : Registry) : Float :=
  if r.hits + r.misses = 0 then 0.0
  else Float.ofNat r.hits / Float.ofNat (r.hits + r.misses)

end Registry

end ModuleLoader
