import ModuleLoader.Dict

/-!
Strategies: how a file becomes what its module exposes, chosen by the longest registered suffix of
the file's name. Suffixes begin with a dot and keep the order of their first registration.
-/
namespace ModuleLoader

/-- How a file is loaded: as a script that is run, or as JSON data. -/
inductive Strategy where
  | script
  | json
deriving Repr, DecidableEq

def Strategy.name : Strategy → String
  | .script => "script"
  | .json => "json"

def Strategy.builtin? (suffix : String) : Option Strategy :=
  if suffix = ".js" then some .script
  else if suffix = ".json" then some .json
  else none

/-- Strategies by suffix. What they are makes no difference to the table. -/
structure Strategies (σ : Type := Strategy) where
  entries : Dict σ
deriving Repr, DecidableEq

namespace Strategies

variable {σ : Type}

def empty : Strategies σ :=
  ⟨[]⟩

/-- A suffix with the dot that may have been left out in front of it. -/
def dotted (suffix : String) : String :=
  if suffix.toList.head? = some '.' then suffix else "." ++ suffix

def register (t : Strategies σ) (suffix : String) (s : σ) : Strategies σ :=
  ⟨t.entries.insert (dotted suffix) s⟩

/-- The strategy of a suffix, which has to be spelled with its dot. -/
def get? (t : Strategies σ) (suffix : String) : Option σ :=
  t.entries.get? suffix

def suffixes (t : Strategies σ) : List String :=
  t.entries.keys

def fits (fileName suffix : String) : Bool :=
  suffix.utf8ByteSize < fileName.utf8ByteSize && suffix.toList.isSuffixOf fileName.toList

/-- The longer of two entries, the second if they are equally long. -/
def longer (a : Option (String × σ)) (b : String × σ) : Option (String × σ) :=
  match a with
  | none => some b
  | some a => if b.1.utf8ByteSize < a.1.utf8ByteSize then some a else some b

/-- The longest suffix that fits a file name, with its strategy. -/
def longestFit? (t : Strategies σ) (fileName : String) : Option (String × σ) :=
  (t.entries.filter fun e => fits fileName e.1).foldl longer none

/-- The table of the suffixes that have a strategy from the start; the others are passed over. -/
def ofSuffixes (suffixes : List String) : Strategies :=
  suffixes.foldl (fun t suffix =>
    match Strategy.builtin? suffix with
    | some s => t.register suffix s
    | none => t) empty

end Strategies

end ModuleLoader
