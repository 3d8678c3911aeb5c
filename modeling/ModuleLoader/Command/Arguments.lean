import ModuleLoader.Path

/-!
The arguments of the command. They are read from left to right, and the first that is wrong, or
that asks for help or for the version, decides.
-/
namespace ModuleLoader.Command

/-- What the command is to do. -/
inductive Task where
  /-- Load a module and print what it exposes; without a reference, the manifest's main module. -/
  | run (reference : Option String)
  /-- Print the file that a reference stands for. -/
  | resolve (reference : String)
deriving Repr, DecidableEq

/-- The settings that both tasks take. -/
structure Settings where
  base : Option Path
  manifest : Option Path
  extensions : List String
  verbose : Bool
deriving Repr, DecidableEq

/-- The names of the tasks. -/
inductive TaskName where
  | run
  | resolve
deriving Repr, DecidableEq

/-- What arguments ask for. -/
inductive Request where
  | perform (task : Task) (settings : Settings)
  | help (topic : Option TaskName)
  | version
  /-- The arguments make no sense. -/
  | misuse
deriving Repr, DecidableEq

def taskName? : String → Option TaskName
  | "run" => some .run
  | "resolve" => some .resolve
  | _ => none

def isOption (argument : String) : Bool :=
  match argument.toList with
  | '-' :: _ :: _ => true
  | _ => false

/-- The options that take a value. -/
inductive ValueOption where
  | base
  | manifest
  | extension
deriving Repr, DecidableEq

def ValueOption.ofName? : String → Option ValueOption
  | "base" => some .base
  | "manifest" => some .manifest
  | "ext" => some .extension
  | _ => none

def ValueOption.ofLetter? : Char → Option ValueOption
  | 'b' => some .base
  | 'm' => some .manifest
  | 'e' => some .extension
  | _ => none

/-- The settings with one more; a path may not be empty nor be given twice. -/
def Settings.set? (s : Settings) (o : ValueOption) (value : String) : Option Settings :=
  match o with
  | .base => if s.base.isSome || value = "" then none else some { s with base := some ⟨value⟩ }
  | .manifest =>
    if s.manifest.isSome || value = "" then none else some { s with manifest := some ⟨value⟩ }
  | .extension => some { s with extensions := s.extensions ++ [value] }

/-- The settings with the switch for more talk, which may not be given twice. -/
def Settings.beVerbose? (s : Settings) : Option Settings :=
  if s.verbose then none else some { s with verbose := true }

/-- What was read of a task's arguments so far: its settings, and its reference. -/
structure Partial where
  settings : Settings
  reference : Option String

/-- A cluster of letters: where it leads. -/
inductive Cluster where
  /-- All letters were switches. -/
  | done (s : Settings)
  /-- The last letter needs a value from the next argument. -/
  | needs (s : Settings) (o : ValueOption)
  | help
  | misuse

/-- Reads a cluster of letters; what follows the letter of an option with a value is that value,
an equals sign aside. -/
def readCluster (s : Settings) : List Char → Cluster
  | [] => .done s
  | 'h' :: _ => .help
  | 'v' :: rest =>
    match s.beVerbose? with
    | some s => readCluster s rest
    | none => .misuse
  | c :: rest =>
    match ValueOption.ofLetter? c, rest with
    | none, _ => .misuse
    | some o, [] => .needs s o
    | some o, '=' :: value | some o, value =>
      match s.set? o (String.ofList value) with
      | some s => .done s
      | none => .misuse

def splitLong (cs : List Char) : String × Option String :=
  let name := cs.takeWhile (· ≠ '=')
  match cs.drop name.length with
  | _ :: value => (String.ofList name, some (String.ofList value))
  | [] => (String.ofList name, none)

/-- Takes arguments as references; there may be one. -/
def takeReferences (p : Partial) : List String → Option Partial
  | [] => some p
  | reference :: rest =>
    if p.reference.isSome then none else takeReferences { p with reference := some reference } rest

def Partial.request (name : TaskName) (p : Partial) : Request :=
  match name, p.reference with
  | .run, reference => .perform (.run reference) p.settings
  | .resolve, some reference => .perform (.resolve reference) p.settings
  | .resolve, none => .misuse

def readTask (name : TaskName) (p : Partial) : List String → Request
  | [] => p.request name
  | argument :: rest =>
    match argument.toList with
    | ['-', '-'] =>
      match takeReferences p rest with
      | some p => p.request name
      | none => .misuse
    | '-' :: '-' :: cs =>
      match splitLong cs with
      | ("help", none) => .help (some name)
      | ("verbose", none) =>
        match p.settings.beVerbose? with
        | some settings => readTask name { p with settings } rest
        | none => .misuse
      | (long, value) =>
        match ValueOption.ofName? long, value, rest with
        | some o, some value, rest =>
          match p.settings.set? o value with
          | some settings => readTask name { p with settings } rest
          | none => .misuse
        | some o, none, value :: rest =>
          if isOption value then .misuse
          else match p.settings.set? o value with
            | some settings => readTask name { p with settings } rest
            | none => .misuse
        | _, _, _ => .misuse
    | '-' :: c :: cs =>
      match readCluster p.settings (c :: cs), rest with
      | .done settings, rest => readTask name { p with settings } rest
      | .needs settings o, value :: rest =>
        if isOption value then .misuse
        else match settings.set? o value with
          | some settings => readTask name { p with settings } rest
          | none => .misuse
      | .needs _ _, [] => .misuse
      | .help, _ => .help (some name)
      | .misuse, _ => .misuse
    | _ =>
      if p.reference.isSome then .misuse
      else readTask name { p with reference := some argument } rest

/-- A cluster of letters before the task: whether more talk is wanted after it, or what else it
asks for. -/
def readSwitches (verbose : Bool) : List Char → Request ⊕ Bool
  | [] => .inr verbose
  | 'h' :: _ => .inl (.help none)
  | 'V' :: _ => .inl .version
  | 'v' :: rest => if verbose then .inl .misuse else readSwitches true rest
  | _ => .inl .misuse

def readHelp : List String → Request
  | [] => .help none
  | topic :: rest =>
    match topic, taskName? topic, rest with
    | "help", _, [] => .help none
    | _, some name, [] => .help (some name)
    | _, _, _ => .misuse

def readArguments (verbose : Bool) : List String → Request
  | [] => .misuse
  | argument :: rest =>
    match argument with
    | "--help" => .help none
    | "--version" => .version
    | "--verbose" => if verbose then .misuse else readArguments true rest
    | "help" => readHelp rest
    | _ =>
      match taskName? argument, argument.toList with
      | some name, _ => readTask name ⟨⟨none, none, [], false⟩, none⟩ rest
      | none, '-' :: c :: cs =>
        match readSwitches verbose (c :: cs) with
        | .inl request => request
        | .inr verbose => readArguments verbose rest
      | none, _ => .misuse

end ModuleLoader.Command
