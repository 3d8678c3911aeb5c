import ModuleLoader.FileSystem
import ModuleLoader.Json.Reader
import ModuleLoader.Script.Tree.Program

/-!
Why a module cannot be had. Each cause has a code that scripts can test, and a wording.
-/
namespace ModuleLoader

open Script

/-- Why a module cannot be had. -/
inductive LoadFault where
  /-- No file answers the reference. -/
  | notFound (reference : String) (base : Path) (tried : List Path)
  /-- The file cannot be read. -/
  | unreadable (path : Path) (fault : FileFault)
  /-- The file is no JSON text. -/
  | invalidJson (path : Path) (error : Json.ReadError)
  /-- The file is no script. -/
  | malformed (path : Path) (error : SyntaxFault)
  /-- A value was thrown and not caught; `message` describes it. -/
  | uncaught (path : Path) (message : String)
  /-- No strategy is registered for the file. -/
  | unknownExtension (path : Path) (extension : String)

namespace LoadFault

def code : LoadFault → String
  | notFound _ _ _ => "MODULE_NOT_FOUND"
  | unreadable _ _ => "ERR_READ"
  | invalidJson _ _ => "ERR_INVALID_JSON"
  | malformed _ _ => "ERR_SYNTAX"
  | uncaught _ _ => "ERR_UNCAUGHT"
  | unknownExtension _ _ => "ERR_UNKNOWN_EXTENSION"

def cause? : LoadFault → Option String
  | unreadable _ fault => some fault.message
  | invalidJson _ error => some error.message
  | malformed _ error => some error.message
  | _ => none

def message : LoadFault → String
  | notFound reference base tried =>
    "Cannot find module '" ++ reference ++ "' from '" ++ base.text ++ "' (tried: " ++
      Text.quotedList (tried.map Path.text) ++ ")"
  | unreadable path fault => "Failed to read " ++ path.text ++ ": " ++ fault.message
  | invalidJson path error => "Invalid JSON in " ++ path.text ++ ": " ++ error.message
  | malformed path error => "Syntax error in " ++ path.text ++ ": " ++ error.message
  | uncaught path message => "Uncaught " ++ message ++ " in " ++ path.text
  | unknownExtension path extension =>
    "No loader registered for extension '" ++ extension ++ "' (" ++ path.text ++ ")"

def isNotFound : LoadFault → Bool
  | notFound _ _ _ => true
  | _ => false

end LoadFault

end ModuleLoader
