import ModuleLoader.Dict
import ModuleLoader.Number.Layout

/-!
JSON values. Objects keep the order of their keys; a number is an exact integer or a double.
-/
namespace ModuleLoader

/-- A JSON number. -/
inductive JsonNumber where
  | integer (value : Int)
  | float (value : Float)

/-- A JSON value. -/
inductive Json where
  | null
  | bool (value : Bool)
  | number (value : JsonNumber)
  | string (text : String)
  | array (items : List Json)
  | object (fields : List (String × Json))

namespace JsonNumber

def toFloat : JsonNumber → Float
  | .integer i => if i < 0 then -(Float.ofNat i.natAbs) else Float.ofNat i.natAbs
  | .float x => x

/-- The number with a double's value: exact integers stay integers. -/
def ofFloat (x : Float) : JsonNumber :=
  match Number.integer? x with
  | some i => .integer i
  | none => .float x

end JsonNumber

/-- The JSON form of a double; what is not finite has none but `null`. -/
def Json.ofFloat (x : Float) : Json :=
  match Number.Reading.ofFloat x with
  | .finite _ => .number (.ofFloat x)
  | _ => .null

end ModuleLoader
