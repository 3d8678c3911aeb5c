import ModuleLoader.Path
import ModuleLoader.Script.Tree.Basic

/-!
Values of the script language. Arrays, objects, functions and scope frames live in a heap and are
known by their index there, so two values are the same container exactly when their indices are.
-/
namespace ModuleLoader.Script

abbrev ObjectId := Nat

abbrev ArrayId := Nat

abbrev FunctionId := Nat

abbrev FrameId := Nat

/-- A scope: its frames, innermost first. -/
abbrev Scope := List FrameId

/-- The functions that the host provides. -/
inductive Native where
  | print | log | error
  | stringify | parse
  | keys
  | push | join
  /-- Loads a module on behalf of the module with this identifier. -/
  | require (home : Path)
  /-- A function of the embedding program, told apart by a number. It does nothing and gives
  `undefined`. -/
  | host (number : Nat) (name : String)
deriving Repr, DecidableEq

def Native.name : Native → String
  | print => "print"
  | log => "log"
  | error => "error"
  | stringify => "stringify"
  | parse => "parse"
  | keys => "keys"
  | push => "push"
  | join => "join"
  | require _ => "require"
  | host _ name => name

/-- A value. -/
inductive Value where
  | undefined
  | null
  | bool (value : Bool)
  | number (value : Float)
  | string (text : String)
  | array (id : ArrayId)
  | object (id : ObjectId)
  | function (id : FunctionId)
  | native (n : Native)

instance : Inhabited Value := ⟨.undefined⟩

namespace Value

/-- The value is absent: `undefined` or `null`. -/
def isAbsent : Value → Bool
  | undefined | null => true
  | _ => false

def isCallable : Value → Bool
  | function _ | native _ => true
  | _ => false

/-- How the value counts as a condition: absent values, `false`, both zeros, not-a-number and the
empty string count as false. -/
def truthy : Value → Bool
  | undefined | null => false
  | bool b => b
  | number x => x != 0.0 && x == x
  | string s => s != ""
  | _ => true

def typeName : Value → String
  | undefined => "undefined"
  | null | array _ | object _ => "object"
  | bool _ => "boolean"
  | number _ => "number"
  | string _ => "string"
  | function _ | native _ => "function"

/-- Equality of type and value; containers and functions are equal only to themselves. -/
def strictEq : Value → Value → Bool
  | undefined, undefined | null, null => true
  | bool a, bool b => a == b
  | number a, number b => a == b
  | string a, string b => a == b
  | array a, array b => a == b
  | object a, object b => a == b
  | function a, function b => a == b
  | native a, native b => a == b
  | _, _ => false

def looseEq (a b : Value) : Bool :=
  (a.isAbsent && b.isAbsent) || a.strictEq b

end Value

end ModuleLoader.Script
