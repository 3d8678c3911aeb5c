import ModuleLoader.Script.Heap
import ModuleLoader.Text.Quoted

/-!
Modules: files that have been asked for, each with the object that scripts know as `module`. What
a module exposes is that object's `exports`, whatever it is at the time of asking.
-/
namespace ModuleLoader

open Script

/-- How far the loading of a module has come. -/
inductive ModuleState where
  | loading
  | loaded
  | failed
deriving Repr, DecidableEq

def ModuleState.text : ModuleState → String
  | .loading => "Loading"
  | .loaded => "Loaded"
  | .failed => "Failed"

/-- A module: the file it is identified by, its module object, and its state. -/
structure Module where
  id : Path
  object : ObjectId
  state : ModuleState
deriving Repr, DecidableEq

/-- The directory of a file: its parent, or itself where it has none. -/
def Path.directory (id : Path) : Path :=
  id.parent?.getD id

namespace Module

def directory (m : Module) : Path :=
  m.id.directory

def extension? (m : Module) : Option String :=
  m.id.extension?.map ("." ++ ·)

/-- A module about to be loaded, with a module object of its own that exposes an empty object. -/
def create (h : Heap) (id : Path) : Module × Heap :=
  let (exports, h) := h.newObject []
  let (object, h) := h.newObject
    [("id", .string id.text), ("exports", .object exports), ("filename", .string id.text),
      ("path", .string id.directory.text), ("loaded", .bool false)]
  (⟨id, object, .loading⟩, h)

def exposed (m : Module) (h : Heap) : Value :=
  ((h.object m.object).get? "exports").getD .undefined

def expose (m : Module) (h : Heap) (value : Value) : Heap :=
  h.setProperty m.object "exports" value

/-- The heap in which the module object says that the module is loaded. -/
def announce (m : Module) (h : Heap) : Heap :=
  h.setProperty m.object "loaded" (.bool true)

def debugText (m : Module) : String :=
  "Unit \x7b id: " ++ Text.quoted m.id.text ++ ", state: " ++ m.state.text ++ " \x7d"

end Module

end ModuleLoader
