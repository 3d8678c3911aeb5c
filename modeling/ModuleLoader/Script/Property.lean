import ModuleLoader.Script.Conversion

/-!
Reading and writing properties. Arrays and strings have a `length` and take keys that spell an
index; a string's length counts UTF-16 units, its indices count characters. Absent values have no
properties at all, and what other primitives are given is dropped.
-/
namespace ModuleLoader.Script

def indexBound : Nat := Number.twoTo 64

def maxGrowth : Nat := Number.twoTo 20

/-- The index that a key spells: decimal digits, a plus sign in front of them allowed. -/
def indexOfKey? (key : String) : Option Nat :=
  let ds := match key.toList with
    | '+' :: ds => ds
    | ds => ds
  if ds.isEmpty || !ds.all Char.isDigit then none
  else
    let n := Number.ofDigits ds
    if n < indexBound then some n else none

def units16 (s : String) : Nat :=
  s.toList.foldl (fun n c => n + if c.toNat < 0x10000 then 1 else 2) 0

def arrayFunction? : String → Option Native
  | "push" => some .push
  | "join" => some .join
  | _ => none

/-- Why a property cannot be read or written. -/
inductive PropertyFault where
  | readOfAbsent (target key : String)
  | writeToAbsent (target key : String)
  | tooFarPastEnd
deriving Repr, DecidableEq

def PropertyFault.errorName : PropertyFault → String
  | .readOfAbsent _ _ | .writeToAbsent _ _ => "TypeError"
  | .tooFarPastEnd => "RangeError"

def PropertyFault.message : PropertyFault → String
  | .readOfAbsent target key =>
    "Cannot read properties of " ++ target ++ " (reading '" ++ key ++ "')"
  | .writeToAbsent target key =>
    "Cannot set properties of " ++ target ++ " (setting '" ++ key ++ "')"
  | .tooFarPastEnd => "Invalid array length"

namespace Heap

def arrayProperty (h : Heap) (id : ArrayId) (key : String) : Value :=
  if key = "length" then .number (Float.ofNat (h.array id).size)
  else match indexOfKey? key with
    | some index => (h.array id).getD index .undefined
    | none => (arrayFunction? key).elim .undefined .native

def stringProperty (s key : String) : Value :=
  if key = "length" then .number (Float.ofNat (units16 s))
  else match (indexOfKey? key).bind fun index => s.toList[index]? with
    | some c => .string (String.singleton c)
    | none => .undefined

def functionProperty (h : Heap) (id : FunctionId) (key : String) : Value :=
  let literal := (h.closure id).literal
  if key = "name" then .string (literal.name.getD "")
  else if key = "length" then .number (Float.ofNat literal.params.length)
  else .undefined

def getProperty (h : Heap) (target : Value) (key : String) : Except PropertyFault Value :=
  match target with
  | .undefined | .null => .error (.readOfAbsent (h.display target) key)
  | .object id => .ok (((h.object id).get? key).getD .undefined)
  | .array id => .ok (h.arrayProperty id key)
  | .string s => .ok (stringProperty s key)
  | .function id => .ok (h.functionProperty id key)
  | .native n => .ok (if key = "name" then .string n.name else .undefined)
  | .bool _ | .number _ => .ok .undefined

/-- Why a value cannot be given a property under a key, if it cannot. -/
def putFault? (h : Heap) (target : Value) (key : String) : Option PropertyFault :=
  match target with
  | .undefined | .null => some (.writeToAbsent (h.display target) key)
  | .array id =>
    match indexOfKey? key with
    | some index => if (h.array id).size + maxGrowth < index then some .tooFarPastEnd else none
    | none => none
  | _ => none

/-- Gives a value a property under a key. Only objects, and arrays under an index, keep it. -/
def putProperty (h : Heap) (target : Value) (key : String) (value : Value) : Heap :=
  match target with
  | .object id => h.setProperty id key value
  | .array id =>
    match indexOfKey? key with
    | some index => h.setItem id index value
    | none => h
  | _ => h

end Heap

end ModuleLoader.Script
