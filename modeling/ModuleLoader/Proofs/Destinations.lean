import ModuleLoader.Proofs.Climbs

/-! Where references lead. What a reference resolves to is told by the location it leads to from its
directory: the first file among that location's path and this path with each suffix behind it, and
the failure lists them all. -/
namespace ModuleLoader

namespace FileSystem

variable {fs : FileSystem} {dir : Path}

end FileSystem

variable {fs : FileSystem} {reference : String} {dir : Path} {suffixes : List String}

/-- A working directory with a data file beside a directory. -/
def Sample.project : FileSystem :=
  ⟨⟨["app"], 0⟩, [(["app"], .directory), (["app", "lib"], .directory),
    (["app", "data.json"], .file "null".toUTF8)]⟩

end ModuleLoader
