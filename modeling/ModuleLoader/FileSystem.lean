import ModuleLoader.Path

/-!
A file system as a value: which names stand for files, and which for directories. Looking a path
up walks it part by part from the root or from the working directory, so a step up needs the
directory that it leaves to exist. The working directory alone can be gone and still be left.
-/
namespace ModuleLoader

/-- What a name stands for. -/
inductive Entry where
  | directory
  | file (bytes : ByteArray)

/-- Why a file cannot be had. -/
inductive FileFault where
  | notFound
  | notDirectory
  | isDirectory
  | nameTooLong
  | invalidName
  | notText
deriving Repr, DecidableEq

def FileFault.message : FileFault → String
  | .notFound => "No such file or directory (os error 2)"
  | .notDirectory => "Not a directory (os error 20)"
  | .isDirectory => "Is a directory (os error 21)"
  | .nameTooLong => "File name too long (os error 36)"
  | .invalidName => "file name contained an unexpected NUL byte"
  | .notText => "stream did not contain valid UTF-8"

abbrev Location := List String

namespace Location

def path (place : Location) : Path :=
  ⟨"/" ++ "/".intercalate place⟩

def step (place : Location) (part : String) : Location :=
  if part = "" ∨ part = "." then place
  else if part = ".." then place.dropLast
  else place ++ [part]

/-- The locations on the way along the parts of a path, both ends included. -/
def walk (place : Location) : List String → List Location
  | [] => [place]
  | part :: parts => place :: walk (place.step part) parts

end Location

/-- The directory that relative paths start from. Who stands in a directory still does when it has
been removed: then it is so many removed directories below a place, and has no path any more. -/
structure WorkingDirectory where
  place : Location
  removed : Nat
deriving Repr, DecidableEq

instance : Coe Location WorkingDirectory :=
  ⟨fun place => ⟨place, 0⟩⟩

/-- The files and directories there are, and the directory that relative paths start from. -/
structure FileSystem where
  working : WorkingDirectory
  entries : List (Location × Entry)

namespace FileSystem

/-- What is at a location; the root is always there. -/
def entryAt? (fs : FileSystem) (place : Location) : Option Entry :=
  if place.isEmpty then some .directory
  else (fs.entries.find? fun e => e.1 == place).map Prod.snd

/-- The path of the working directory, unless it was removed. -/
def workingPath (fs : FileSystem) : Option Path :=
  if fs.working.removed = 0 then some fs.working.place.path else none

/-- Where the parts of a path are taken from: the root, or the working directory. -/
def start (fs : FileSystem) (p : Path) : Location :=
  if p.isAbsolute then [] else fs.working.place

/-- The parts that are left when the ones before them have led out of so many removed directories.
Nothing is in these, but each still has a way up; where it leads has to be a directory, for which
the empty part in front stands. -/
def leave : Nat → List String → Except FileFault (List String)
  | 0, parts => .ok ("" :: parts)
  | _ + 1, [] => .error .isDirectory
  | n + 1, part :: parts =>
    if part = "" ∨ part = "." then leave (n + 1) parts
    else if part = ".." then leave n parts
    else .error .notFound

/-- The parts of a path that are taken from its start on. -/
def way (fs : FileSystem) (p : Path) : Except FileFault (List String) :=
  if p.isAbsolute then .ok p.parts else leave fs.working.removed p.parts

/-- One part of a path, taken at a location that has to be a directory. -/
def enter (fs : FileSystem) (place : Location) (part : String) : Except FileFault Location :=
  match fs.entryAt? place with
  | none => .error .notFound
  | some (.file _) => .error .notDirectory
  | some .directory =>
    if 255 < part.utf8ByteSize then .error .nameTooLong else .ok (place.step part)

def locate (fs : FileSystem) (p : Path) : Except FileFault Location :=
  if p.text = "" then .error .notFound
  else if p.text.toList.contains '\x00' then .error .invalidName
  else if 4096 ≤ p.text.utf8ByteSize then .error .nameTooLong
  else do (← fs.way p).foldlM fs.enter (fs.start p)

def along (fs : FileSystem) (p : Path) : List Location :=
  match fs.way p with
  | .ok parts => (fs.start p).walk parts
  | .error _ => []

def find (fs : FileSystem) (p : Path) : Except FileFault Entry := do
  match fs.entryAt? (← fs.locate p) with
  | some entry => return entry
  | none => throw .notFound

def isFile (fs : FileSystem) (p : Path) : Bool :=
  match fs.find p with
  | .ok (.file _) => true
  | _ => false

def readText (fs : FileSystem) (p : Path) : Except FileFault String := do
  match ← fs.find p with
  | .directory => throw .isDirectory
  | .file bytes =>
    match String.fromUTF8? bytes with
    | some text => return text
    | none => throw .notText

/-- The file system with an entry at a location, in place of what was there. -/
def put (fs : FileSystem) (place : Location) (entry : Entry) : FileSystem :=
  { fs with entries := (place, entry) :: fs.entries.filter fun e => e.1 != place }

/-- The file system with directories along a path of names below a location, where nothing was. -/
def makeDirectories (fs : FileSystem) (place : Location) : List String → FileSystem
  | [] => fs
  | name :: rest =>
    let below := place ++ [name]
    let fs := if (fs.entryAt? below).isSome then fs else fs.put below .directory
    fs.makeDirectories below rest

/-- The file system with a file at a location, and with the directories above it. -/
def writeFile (fs : FileSystem) (place : Location) (bytes : ByteArray) : FileSystem :=
  (fs.makeDirectories [] place.dropLast).put place (.file bytes)

/-- The file system without the file at a location, if there is one. -/
def removeFile? (fs : FileSystem) (place : Location) : Option FileSystem :=
  match fs.entryAt? place with
  | some (.file _) => some { fs with entries := fs.entries.filter fun e => e.1 != place }
  | _ => none

end FileSystem

end ModuleLoader
