import ModuleLoader.Command.Arguments
import ModuleLoader.Manifest
import ModuleLoader.Run.Session

/-!
The command as a function of its arguments and of the file system: what it prints, what it
complains about, and its exit code.
-/
namespace ModuleLoader.Command

open Script

/-- What the command leaves behind. `sought` lists the files that it looked for. -/
structure Report where
  code : Nat
  stdout : String
  stderr : String
  sought : List Path

/-- A failure: what was being done, and the causes behind it, outermost first. -/
structure Failure where
  context : String
  causes : List String

def versionText : String := "modload 0.2.0\n"

def helpText : Option TaskName → String
  | none =>
    "Load CommonJS-style modules and print their exports\n\n" ++
    "Usage: modload [OPTIONS] <COMMAND>\n\n" ++
    "Commands:\n" ++
    "  run      Load a module and print its exports as JSON\n" ++
    "  resolve  Print the file a reference resolves to\n" ++
    "  help     Print this message or the help of the given subcommand(s)\n\n" ++
    "Options:\n" ++
    "  -v, --verbose  Log loader activity at debug level\n" ++
    "  -h, --help     Print help\n" ++
    "  -V, --version  Print version\n"
  | some name =>
    let (about, usage, reference) := match name with
      | .run => ("Load a module and print its exports as JSON", "[REFERENCE]",
          "  [REFERENCE]  Module reference (defaults to the manifest's package.main)")
      | .resolve => ("Print the file a reference resolves to", "<REFERENCE>",
          "  <REFERENCE>  Module reference")
    let task := match name with
      | .run => "run"
      | .resolve => "resolve"
    about ++ "\n\nUsage: modload " ++ task ++ " [OPTIONS] " ++ usage ++ "\n\n" ++
    "Arguments:\n" ++ reference ++ "\n\n" ++
    "Options:\n" ++
    "  -b, --base <BASE>          Directory references are resolved against\n" ++
    "  -v, --verbose              Log loader activity at debug level\n" ++
    "  -m, --manifest <MANIFEST>  " ++
      "Manifest file (defaults to modload.toml in the base directory)\n" ++
    "  -e, --ext <SUFFIX>         Suffix to probe, in order; repeat to list several\n" ++
    "  -h, --help                 Print help\n"

/-- A text with spaces in front of all its lines but the first. -/
def indentRest (width : Nat) (text : String) : String :=
  String.ofList (text.toList.flatMap fun c =>
    if c = '\n' then '\n' :: List.replicate width ' ' else [c])

def numberedCause (index : Nat) (cause : String) : String :=
  let number := toString index
  String.ofList (List.replicate (5 - number.length) ' ') ++ number ++ ": " ++ indentRest 7 cause

def Failure.text (f : Failure) : String :=
  "Error: " ++ f.context ++ "\n" ++
    match f.causes with
    | [] => ""
    | [cause] => "\nCaused by:\n    " ++ indentRest 4 cause ++ "\n"
    | causes => "\nCaused by:\n" ++
        "\n".intercalate (causes.zipIdx.map fun (cause, i) => numberedCause i cause) ++ "\n"

def loadCauses (e : LoadFault) : List String :=
  e.message :: e.cause?.toList

def manifestCauses : ManifestFault → List String
  | .unreadable fault => [(ManifestFault.unreadable fault).message, fault.message]
  | e => [e.message]

/-- The file that may hold the manifest: the one that is named, or the usual one in the base
directory. -/
def manifestCandidate (s : Settings) : Path :=
  s.manifest.getD ((s.base.getD ⟨"."⟩).join ⟨manifestName⟩)

/-- The file that holds the manifest, if there is one. A file that is named has to be there. -/
def manifestPath? (fs : FileSystem) (s : Settings) : Option Path :=
  if s.manifest.isSome || fs.isFile (manifestCandidate s) then some (manifestCandidate s) else none

/-- The directory that references are seen from: the one that is named, or the manifest's, or the
working directory. -/
def baseDirectory (s : Settings) (manifest : Option Path) : Path :=
  match s.base, manifest with
  | some base, _ => base
  | none, some path => path.parent?.getD ⟨"."⟩
  | none, none => ⟨"."⟩

/-- The options of the loader and the manifest, if there is one. Settings go before the manifest. -/
def optionsOf (fs : FileSystem) (s : Settings) :
    Except Failure (Options × Option Manifest) := do
  let path? := manifestPath? fs s
  let manifest ← match path? with
    | none => pure none
    | some path =>
      match Manifest.ofFile fs path with
      | .ok m => pure (some m)
      | .error e => throw ⟨"failed to load manifest " ++ path.text, manifestCauses e⟩
  let base := baseDirectory s path?
  let options := match manifest with
    | some m => m.options base
    | none => { Options.standard with base }
  let options :=
    if s.extensions.isEmpty then options else { options with extensions := s.extensions }
  match options.fault? with
  | some fault => throw ⟨"invalid loader options", [(ManifestFault.invalid fault).message]⟩
  | none => return (options, manifest)

/-- What a module exposes, as it is printed: indented JSON where there is a JSON form. -/
def render (h : Heap) (v : Value) : Except Failure String :=
  match h.toJson v with
  | .ok (some j) => .ok j.pretty
  | .ok none => .ok (h.inspect v)
  | .error fault => .error ⟨"exports cannot be printed as JSON", [fault.message]⟩

def reportOf (printed : String) (sought : List Path) : Except Failure String → Report
  | .ok line => ⟨0, printed ++ line ++ "\n", "", sought⟩
  | .error f => ⟨1, printed, f.text, sought⟩

def soughtBy (l : Loader) : List Path :=
  l.journal.flatMap fun
    | .sought candidates => candidates
    | _ => []

def runReference (reference : Option String) (manifest : Option Manifest) :
    Except Failure String :=
  match reference.or (manifest.bind Manifest.main?) with
  | some reference => .ok reference
  | none => .error ⟨"no module given and no package.main in the manifest", []⟩

def runTask (fuel : Nat) (fs : FileSystem) (asked : List Path) (options : Options)
    (reference : String) : Option Report :=
  let loader := Loader.create fs options
  let m := Machine.create loader (.kept "") loader.callDepth
  match m.load fuel reference with
  | none => none
  | some (.error e, m) =>
    some (reportOf m.takeOutput.1 (asked ++ soughtBy m.loader)
      (.error ⟨"failed to load '" ++ reference ++ "'", loadCauses e⟩))
  | some (.ok v, m) =>
    some (reportOf m.takeOutput.1 (asked ++ soughtBy m.loader) (render m.heap v))

def resolveTask (fs : FileSystem) (asked : List Path) (options : Options)
    (reference : String) : Report :=
  let loader := Loader.create fs options
  reportOf "" (asked ++ loader.candidates reference loader.base)
    (match loader.resolve reference loader.base with
      | .ok path => .ok path.text
      | .error e => .error ⟨"failed to resolve '" ++ reference ++ "'", loadCauses e⟩)

def perform (fuel : Nat) (fs : FileSystem) (task : Task) (s : Settings) : Option Report :=
  let asked := [manifestCandidate s]
  match optionsOf fs s with
  | .error f => some (reportOf "" asked (.error f))
  | .ok (options, manifest) =>
    match task with
    | .resolve reference => some (resolveTask fs asked options reference)
    | .run reference =>
      match runReference reference manifest with
      | .error f => some (reportOf "" asked (.error f))
      | .ok reference => runTask fuel fs asked options reference

/-- The command; nothing if it runs out of fuel. -/
def execute (fuel : Nat) (fs : FileSystem) (arguments : List String) : Option Report :=
  match readArguments false arguments with
  | .misuse => some ⟨2, "", "modload: see 'modload --help' for how to call this command\n", []⟩
  | .version => some ⟨0, versionText, "", []⟩
  | .help topic => some ⟨0, helpText topic, "", []⟩
  | .perform task s => perform fuel fs task s

end ModuleLoader.Command
