import ModuleLoader.Options
import ModuleLoader.Text.Blank
import ModuleLoader.Toml.Reader

/-!
Project manifests: TOML documents with an optional `package` and an optional `loader` section.
Keys that mean nothing here are passed over, and a section may also be given as the list of its
fields in order.
-/
namespace ModuleLoader

def manifestName : String := "modload.toml"

/-- The `package` section. -/
structure PackageSection where
  name : String
  main : Option String
deriving Repr, DecidableEq

/-- The `loader` section. -/
structure OptionSection where
  extensions : Option (List String)
  callDepth : Option Nat
deriving Repr, DecidableEq

/-- A manifest. -/
structure Manifest where
  package : Option PackageSection
  loader : OptionSection
deriving Repr, DecidableEq

/-- Why a manifest cannot be had. -/
inductive ManifestFault where
  | unreadable (fault : FileFault)
  | malformed
  | invalid (fault : OptionFault)
deriving Repr, DecidableEq

def ManifestFault.message : ManifestFault → String
  | .unreadable fault => "Failed to read manifest file: " ++ fault.message
  | .malformed => "Failed to parse manifest"
  | .invalid fault => "Invalid manifest: " ++ fault.message

/-! ### From TOML -/

def Toml.text? : Toml → Option String
  | .string s => some s
  | _ => none

def Toml.texts? : Toml → Option (List String)
  | .array items => items.mapM Toml.text?
  | _ => none

def Toml.nat? : Toml → Option Nat
  | .integer i => if i < 0 then none else some i.toNat
  | _ => none

/-- A part that may be absent: what it spells if it is there, and nothing at all if what is there
is of the wrong kind. -/
def optionally {α : Type} (read : Toml → Option α) : Option Toml → Option (Option α)
  | none => some none
  | some t => (read t).map some

/-- The `package` section of a value: its name has to be there, and in a list both fields. -/
def PackageSection.ofToml? : Toml → Option PackageSection
  | .table fields => do
    let name ← (← Dict.get? fields "name").text?
    return ⟨name, ← optionally Toml.text? (Dict.get? fields "main")⟩
  | .array (name :: main :: _) => do
    return ⟨← name.text?, some (← main.text?)⟩
  | _ => none

/-- The `loader` section of a value. A date counts as a table of other keys. -/
def OptionSection.ofToml? : Toml → Option OptionSection
  | .table fields => do
    return ⟨← optionally Toml.texts? (Dict.get? fields "extensions"),
      ← optionally Toml.nat? (Dict.get? fields "max-call-depth")⟩
  | .array items => do
    return ⟨← optionally Toml.texts? items[0]?, ← optionally Toml.nat? items[1]?⟩
  | .datetime => some ⟨none, none⟩
  | _ => none

def Manifest.ofFields? (fields : List (String × Toml)) : Option Manifest := do
  let package ← optionally PackageSection.ofToml? (Dict.get? fields "package")
  let loader ← optionally OptionSection.ofToml? (Dict.get? fields "loader")
  return ⟨package, loader.getD ⟨none, none⟩⟩

namespace Manifest

def main? (m : Manifest) : Option String :=
  m.package.bind PackageSection.main

def options (m : Manifest) (base : Path) : Options :=
  ⟨base, m.loader.extensions.getD standardExtensions, m.loader.callDepth.getD standardCallDepth⟩

/-- The first thing that is wrong with a manifest, if something is. -/
def fault? (m : Manifest) : Option OptionFault :=
  if m.package.any fun p => Text.allBlank p.name then some .emptyPackageName
  else (m.options ⟨"."⟩).fault?

def parse (text : String) : Except ManifestFault Manifest :=
  match (Toml.document? text).bind ofFields? with
  | none => .error .malformed
  | some m =>
    match m.fault? with
    | some fault => .error (.invalid fault)
    | none => .ok m

def ofFile (fs : FileSystem) (p : Path) : Except ManifestFault Manifest :=
  match fs.readText p with
  | .error fault => .error (.unreadable fault)
  | .ok text => parse text

/-- The manifest as JSON; what is not set is left out. -/
def toJson (m : Manifest) : Json :=
  let package := m.package.map fun p =>
    ("package", Json.object (("name", .string p.name) ::
      (p.main.map fun main => ("main", Json.string main)).toList))
  let extensions := m.loader.extensions.map fun xs =>
    ("extensions", Json.array (xs.map .string))
  let callDepth := m.loader.callDepth.map fun n =>
    ("max-call-depth", Json.number (.integer n))
  .object (package.toList ++ [("loader", .object (extensions.toList ++ callDepth.toList))])

end Manifest

end ModuleLoader
