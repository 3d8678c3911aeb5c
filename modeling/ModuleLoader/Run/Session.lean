import ModuleLoader.Run.Evaluate

/-!
Whole runs from the host's side: a machine with a fresh realm, scripts run in it, values called,
and modules loaded. Each starts at call depth zero.
-/
namespace ModuleLoader

open Script

def ampleFuel : Nat := Number.tenTo 15

namespace Machine

def create (loader : Loader) (output : Output) (maxDepth : Nat) : Machine :=
  { heap := realm, output, depth := 0, maxDepth, deepest := 0, loader }

/-- The machine at call depth zero under a limit, as each run from the host starts. -/
def rested (m : Machine) (maxDepth : Nat) : Machine :=
  { m with depth := 0, maxDepth }

def takeOutput (m : Machine) : String × Machine :=
  match m.output with
  | .kept text => (text, { m with output := .kept "" })
  | .refused _ => ("", m)

def run {α : Type} (m : Machine) (x : Run α) : Option (Except Exception α × Machine) :=
  x.run m

/-- Loads the module that a reference stands for, seen from a directory. -/
def loadIn (m : Machine) (fuel : Nat) (reference : String) (dir : Path) :
    Option (Except LoadFault Value × Machine) :=
  match (m.rested m.loader.callDepth).run (Evaluate.load fuel reference dir) with
  | none => none
  | some (.ok v, m) => some (.ok v, m)
  | some (.error e, m) => some (.error (e.toLoadFault m.heap dir), m)

/-- Loads the module that a reference stands for, seen from the loader's directory. -/
def load (m : Machine) (fuel : Nat) (reference : String) :
    Option (Except LoadFault Value × Machine) :=
  m.loadIn fuel reference m.loader.base

def module? (m : Machine) (id : Path) : Option Module :=
  m.loader.registry.find? id

def dropLoader (m : Machine) : Machine :=
  { m with loader := { m.loader with dropped := true } }

end Machine

end ModuleLoader
