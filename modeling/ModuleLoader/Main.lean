import ModuleLoader.Command.Execute

/-!
The command on a real disk. A run works on a file system that is a value; so the command is run on
what is known of the disk, the locations that it asked about are looked up, and it is run again,
until it asks about nothing new. Nothing is printed before the last run.
-/
namespace ModuleLoader.Command

def entryOnDisk (place : Location) : IO (Option Entry) := do
  let path := (← IO.currentDir) / place.path.text
  let .ok data ← path.metadata.toBaseIO | return none
  match data.type with
  | .dir => return some .directory
  | .file =>
    let .ok bytes ← (IO.FS.readBinFile path).toBaseIO | return none
    return some (.file bytes)
  | _ => return none

def learn (fs : FileSystem) (place : Location) : IO FileSystem := do
  match ← entryOnDisk place with
  | some entry => return fs.put place entry
  | none => return fs

/-- The report of the command on the disk, of which the locations in `known` were looked up. -/
partial def reportOnDisk (arguments : List String) (known : List Location) (fs : FileSystem) :
    IO (Option Report) := do
  match execute ampleFuel fs arguments with
  | none => return none
  | some report =>
    let new := (report.sought.flatMap fs.along).eraseDups.filter fun place => !known.contains place
    if new.isEmpty then return some report
    else reportOnDisk arguments (new ++ known) (← new.foldlM learn fs)

/-- Runs the command in the working directory, which has to be there, and prints what it reports;
gives the exit code. -/
def runOnDisk (arguments : List String) : IO UInt32 := do
  let here : Path := ⟨(← IO.currentDir).toString⟩
  match ← reportOnDisk arguments [] ⟨here.parts.filter (· ≠ ""), []⟩ with
  | none => return 3
  | some report =>
    (← IO.getStdout).putStr report.stdout
    (← IO.getStderr).putStr report.stderr
    return report.code.toUInt32

end ModuleLoader.Command

def main (arguments : List String) : IO UInt32 :=
  ModuleLoader.Command.runOnDisk arguments
