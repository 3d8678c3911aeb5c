import ModuleLoader.Json.Basic
import ModuleLoader.Number.Decimal
import ModuleLoader.Script.Render

/-!
Values as numbers, and values as JSON. Converting to JSON fails on a container that contains
itself and on more than `maxDepth` containers one inside the other, and on nothing else; what JSON
cannot express is left out of objects and becomes `null` in arrays.
-/
namespace ModuleLoader.Script

def notANumber : Float := Float.ofBits 0x7ff8000000000000

/-- The number that a text converts to: blanks at the ends do not count, and an empty text is
zero. -/
def numberOfText (s : String) : Float :=
  let trimmed := Text.trim s.toList
  if trimmed.isEmpty then 0.0 else (Number.read? trimmed).getD notANumber

def Value.toNumber : Value → Float
  | .null => 0.0
  | .bool true => 1.0
  | .bool false => 0.0
  | .number x => x
  | .string s => numberOfText s
  | _ => notANumber

/-- Why a value has no JSON form. -/
inductive JsonFault where
  | circular
  | tooDeep
deriving Repr, DecidableEq

def JsonFault.message : JsonFault → String
  | .circular => "Converting circular structure to JSON"
  | .tooDeep =>
    "Maximum nesting depth (" ++ toString maxDepth ++ ") exceeded converting to JSON"

namespace Heap

/-- The JSON form of a value inside some containers, if it has one; `left` more containers may be
entered. -/
def toJsonIn (h : Heap) (left : Nat) (inside : List Container) :
    Value → Except JsonFault (Option Json)
  | .undefined => .ok none
  | .null => .ok (some .null)
  | .bool b => .ok (some (.bool b))
  | .number x => .ok (some (.ofFloat x))
  | .string s => .ok (some (.string s))
  | .array id =>
    if inside.contains (.array id) then .error .circular
    else match left with
      | 0 => .error .tooDeep
      | left + 1 => do
        let items ← (h.array id).toList.mapM fun v => h.toJsonIn left (.array id :: inside) v
        return some (.array (items.map fun j => j.getD .null))
  | .object id =>
    if inside.contains (.object id) then .error .circular
    else match left with
      | 0 => .error .tooDeep
      | left + 1 => do
        let fields ← (h.object id).mapM fun (key, v) => do
          return (key, ← h.toJsonIn left (.object id :: inside) v)
        return some (.object (fields.filterMap fun (key, j) => j.map (key, ·)))
  | .function _ => .ok none
  | .native _ => .ok none

def toJson (h : Heap) (v : Value) : Except JsonFault (Option Json) :=
  h.toJsonIn maxDepth [] v

mutual

def ofJson (h : Heap) : Json → Value × Heap
  | .null => (.null, h)
  | .bool b => (.bool b, h)
  | .number n => (.number n.toFloat, h)
  | .string s => (.string s, h)
  | .array items =>
    let (values, h) := h.ofJsonItems items
    let (id, h) := h.newArray values.toArray
    (.array id, h)
  | .object fields =>
    let (pairs, h) := h.ofJsonFields fields
    let (id, h) := h.newObject (Dict.ofPairs pairs)
    (.object id, h)

def ofJsonItems (h : Heap) : List Json → List Value × Heap
  | [] => ([], h)
  | j :: rest =>
    let (v, h) := h.ofJson j
    let (vs, h) := h.ofJsonItems rest
    (v :: vs, h)

def ofJsonFields (h : Heap) : List (String × Json) → List (String × Value) × Heap
  | [] => ([], h)
  | (key, j) :: rest =>
    let (v, h) := h.ofJson j
    let (pairs, h) := h.ofJsonFields rest
    ((key, v) :: pairs, h)

end

end Heap

end ModuleLoader.Script
