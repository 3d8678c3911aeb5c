import ModuleLoader.Loading.Loader

/-!
What a loader is built from, and when that is acceptable. A loader built from acceptable options
uses all of them as they are; otherwise it passes over what it cannot use.
-/
namespace ModuleLoader

def standardExtensions : List String := [".js", ".json"]

def standardCallDepth : Nat := 128

def largestCallDepth : Nat := 512

/-- What a loader is built from. -/
structure Options where
  base : Path
  extensions : List String
  callDepth : Nat
deriving Repr, DecidableEq

def Options.standard : Options :=
  ⟨⟨"."⟩, standardExtensions, standardCallDepth⟩

/-- Why options are not acceptable. -/
inductive OptionFault where
  | emptyPackageName
  | extensionWithoutDot (extension : String)
  | noStrategy (extension : String)
  | callDepthTooSmall
  | callDepthTooLarge
deriving Repr, DecidableEq

def OptionFault.message : OptionFault → String
  | .emptyPackageName => "package name cannot be empty"
  | .extensionWithoutDot extension => "extension '" ++ extension ++ "' must start with '.'"
  | .noStrategy extension => "no built-in loader for extension '" ++ extension ++ "'"
  | .callDepthTooSmall => "max-call-depth must be at least 1"
  | .callDepthTooLarge => "max-call-depth must be at most " ++ toString largestCallDepth

def extensionFault? (extension : String) : Option OptionFault :=
  if extension.toList.head? ≠ some '.' ∨ extension.utf8ByteSize < 2 then
    some (.extensionWithoutDot extension)
  else if standardExtensions.contains extension then none
  else some (.noStrategy extension)

/-- What is wrong with a bound on nested calls, if something is. -/
def callDepthFault? (depth : Nat) : Option OptionFault :=
  if depth = 0 then some .callDepthTooSmall
  else if largestCallDepth < depth then some .callDepthTooLarge
  else none

/-- The first thing that is wrong with options, if something is. -/
def Options.fault? (o : Options) : Option OptionFault :=
  (o.extensions.findSome? extensionFault?).or (callDepthFault? o.callDepth)

/-- A loader with the options. A call depth out of range is moved to the nearest in range. -/
def Loader.create (files : FileSystem) (o : Options) : Loader :=
  { files
    base := Path.absolute files.workingPath o.base
    callDepth := max 1 (min o.callDepth largestCallDepth)
    strategies := Strategies.ofSuffixes o.extensions
    registry := .empty
    journal := []
    dropped := false }

end ModuleLoader
