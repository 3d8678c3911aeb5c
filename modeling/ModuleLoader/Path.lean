/-!
File paths. A path is its text; what it denotes is its list of components, in which repeated
slashes and dots between slashes do not show. Two texts with the same components are the same
path. `normalize` works on the components alone and never asks a file system.
-/
namespace ModuleLoader

/-- A file path, as it was written. -/
structure Path where
  text : String
deriving Repr, DecidableEq, Inhabited

namespace Path

/-- A step of a path. `here` occurs at the front of a relative path only. -/
inductive Component where
  | root
  | here
  | up
  | name (text : String)
deriving Repr, DecidableEq

/-- The parts of a text between slashes; there is one more than there are slashes. -/
def split : List Char → List (List Char)
  | [] => [[]]
  | c :: rest =>
    if c = '/' then [] :: split rest
    else match split rest with
      | [] => [[c]]
      | part :: parts => (c :: part) :: parts

def parts (p : Path) : List String :=
  (split p.text.toList).map String.ofList

def isAbsolute (p : Path) : Bool :=
  p.text.toList.head? = some '/'

/-- The component that a part stands for; empty parts and dots stand for none. -/
def component? (part : String) : Option Component :=
  if part = "" ∨ part = "." then none
  else if part = ".." then some .up
  else some (.name part)

def firstComponent? (absolute : Bool) (part : String) : Option Component :=
  if absolute then some .root
  else if part = "." then some .here
  else component? part

def components (p : Path) : List Component :=
  match p.parts with
  | [] => []
  | first :: rest =>
    (firstComponent? p.isAbsolute first).toList ++ rest.filterMap component?

def same (p q : Path) : Bool :=
  p.components == q.components

theorem same_iff {p q : Path} : p.same q = true ↔ p.components = q.components :=
  beq_iff_eq

@[simp] theorem same_refl (p : Path) : p.same p = true :=
  same_iff.mpr rfl

theorem same_comm (p q : Path) : p.same q = q.same p := by
  rw [Bool.eq_iff_iff, same_iff, same_iff, eq_comm]

theorem same_congr {p q : Path} (h : p.same q = true) (r : Path) : p.same r = q.same r := by
  rw [same, same, same_iff.mp h]

/-- The path of a relative path inside a directory; an absolute path replaces the directory. -/
def join (dir p : Path) : Path :=
  if p.isAbsolute then p
  else if dir.text = "" ∨ dir.text.toList.getLast? = some '/' then ⟨dir.text ++ p.text⟩
  else ⟨dir.text ++ "/" ++ p.text⟩

def Component.text : Component → String
  | .root => ""
  | .here => "."
  | .up => ".."
  | .name s => s

def ofComponents : List Component → Path
  | [.root] => ⟨"/"⟩
  | cs => ⟨"/".intercalate (cs.map Component.text)⟩

/-- The components, last first, after one more step: a step up drops the last component, but stays
at the root and is kept at the start of a relative path. -/
def walk (back : List Component) : Component → List Component
  | .root => [.root]
  | .here => back
  | .up =>
    match back with
    | [] => [.up]
    | .root :: _ => back
    | _ :: rest => rest
  | .name s => .name s :: back

/-- The path without dots, and with each step up carried out where a component is there to drop. -/
def normalize (p : Path) : Path :=
  ofComponents (p.components.foldl walk []).reverse

/-- The normal form of a path, seen from the working directory. A relative path stays relative where
there is no working directory. -/
def absolute (working : Option Path) (p : Path) : Path :=
  match working with
  | some dir => normalize (dir.join p)
  | none => normalize p

def append (p : Path) (suffix : String) : Path :=
  ⟨p.text ++ suffix⟩

/-- The components, each with the text of the path that ends in it. -/
def steps (p : Path) : List (Component × String) :=
  let parts := p.parts
  (parts.zipIdx.map fun (part, i) =>
    let component := if i = 0 then firstComponent? p.isAbsolute part else component? part
    let text := if i = 0 ∧ p.isAbsolute then "/" else "/".intercalate (parts.take (i + 1))
    component.map (·, text)).filterMap id

/-- The path without its last component; the root and the empty path have none. -/
def parent? (p : Path) : Option Path :=
  match p.steps.reverse with
  | [] => none
  | (.root, _) :: _ => none
  | _ :: (_, text) :: _ => some ⟨text⟩
  | [_] => some ⟨""⟩

def fileName? (p : Path) : Option String :=
  match p.components.getLast? with
  | some (.name s) => some s
  | _ => none

/-- What follows the last dot of a file name, if some text precedes that dot. -/
def extension? (p : Path) : Option String :=
  p.fileName?.bind fun name =>
    let back := name.toList.reverse
    let tail := back.takeWhile (· ≠ '.')
    match back.drop tail.length with
    | _ :: _ :: _ => some (String.ofList tail.reverse)
    | _ => none

end Path

end ModuleLoader
