import ModuleLoader.Loading.Registry
import ModuleLoader.Loading.Resolve
import ModuleLoader.Loading.Strategy

/-!
The state of a loader: what it was built from, its registry and strategies, and a journal of what
it did. The journal tells for each module when it was registered, when its strategy set to work,
when its file was read, and how its loading ended.
-/
namespace ModuleLoader

/-- Something that a loader did. -/
inductive Event where
  /-- A reference was looked for under these paths. -/
  | sought (candidates : List Path)
  /-- A module that was registered before was handed out again. -/
  | reused (id : Path)
  | registered (id : Path)
  /-- A strategy set to work on a module. -/
  | started (id : Path) (strategy : Strategy)
  /-- The file of a module was read, or could not be. -/
  | read (id : Path)
  /-- The loading of a module came to its end. -/
  | settled (id : Path) (state : ModuleState)
deriving Repr, DecidableEq

/-- A loader. Its journal has the latest event first. A loader that was dropped still answers the
functions it gave to scripts, with a refusal. -/
structure Loader where
  files : FileSystem
  base : Path
  callDepth : Nat
  strategies : Strategies
  registry : Registry
  journal : List Event
  dropped : Bool

namespace Loader

def none : Loader :=
  { files := ⟨⟨[], 0⟩, []⟩, base := ⟨"/"⟩, callDepth := 1, strategies := .empty, registry := .empty
    journal := [], dropped := true }

def note (l : Loader) (e : Event) : Loader :=
  { l with journal := e :: l.journal }

def extensions (l : Loader) : List String :=
  l.strategies.suffixes

/-- The file that a reference stands for, seen from a directory. -/
def resolve (l : Loader) (reference : String) (dir : Path) : Except LoadFault Path :=
  ModuleLoader.resolve l.files reference dir l.extensions

/-- The paths that are tried for a reference, seen from a directory. -/
def candidates (l : Loader) (reference : String) (dir : Path) : List Path :=
  ModuleLoader.candidates (Path.absolute l.files.workingPath dir) reference l.extensions

def strategyFor? (l : Loader) (id : Path) : Option Strategy :=
  (l.strategies.longestFit? (id.fileName?.getD "")).map Prod.snd

def settle (l : Loader) (id : Path) (state : ModuleState) : Loader :=
  { l.note (.settled id state) with registry := l.registry.setState id state }

def debugText (l : Loader) : String :=
  "Loader \x7b base_dir: " ++ Text.quoted l.base.text ++ ", extensions: " ++
    Text.quotedList l.extensions ++ ", units: " ++ toString l.registry.size ++ " \x7d"

end Loader

end ModuleLoader
