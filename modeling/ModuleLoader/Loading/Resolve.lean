import ModuleLoader.Loading.Fault

/-!
From a reference to a file. The candidates are the normal form of the reference, seen from a
directory, and that path with each suffix behind it; the first that is a file is the answer.
-/
namespace ModuleLoader

/-- The paths that a reference may stand for, in the order in which they are tried. -/
def candidates (base : Path) (reference : String) (suffixes : List String) : List Path :=
  let path := (base.join ⟨reference⟩).normalize
  path :: suffixes.map path.append

/-- The file that a reference stands for, seen from a directory. -/
def resolve (fs : FileSystem) (reference : String) (dir : Path) (suffixes : List String) :
    Except LoadFault Path :=
  let base := Path.absolute fs.workingPath dir
  let tried := candidates base reference suffixes
  match tried.find? fs.isFile with
  | some path => .ok path
  | none => .error (.notFound reference base tried)

theorem find_error {found : Option Path} {reference : String} {base : Path} {tried : List Path}
    {fault : LoadFault} (h : (match found with
      | some path => .ok path
      | none => .error (.notFound reference base tried) : Except LoadFault Path) = .error fault) :
    fault = .notFound reference base tried := by
  cases found with
  | some path => contradiction
  | none => exact (Except.error.inj h).symm

theorem resolve_error {fs : FileSystem} {reference : String} {dir : Path} {suffixes : List String}
    {fault : LoadFault} (h : resolve fs reference dir suffixes = .error fault) :
    ∃ base tried, fault = .notFound reference base tried :=
  ⟨_, _, find_error h⟩

-- The first candidate is known to be there, so looking for it would be attempted over and over.
attribute [irreducible] resolve

end ModuleLoader
