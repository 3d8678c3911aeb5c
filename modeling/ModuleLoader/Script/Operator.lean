import ModuleLoader.Number.Remainder
import ModuleLoader.Script.Conversion

/-!
The operators that evaluate both operands. `+` joins strings as soon as one operand is a string, a
container or a function; all other arithmetic is on numbers. Two strings compare by code points,
everything else as numbers, of which not-a-number compares to nothing.
-/
namespace ModuleLoader.Script

/-- The value makes `+` join strings. -/
def Value.joinsText : Value → Bool
  | .string _ | .array _ | .object _ | .function _ | .native _ => true
  | _ => false

def Value.compare? (a b : Value) : Option Ordering :=
  match a, b with
  | .string s, .string t => some (if s < t then .lt else if s == t then .eq else .gt)
  | _, _ =>
    let x := a.toNumber
    let y := b.toNumber
    if x < y then some .lt else if x == y then some .eq else if y < x then some .gt else none

def Heap.binary (h : Heap) (op : BinaryOp) (a b : Value) : Value :=
  match op with
  | .add =>
    if a.joinsText || b.joinsText then .string (h.display a ++ h.display b)
    else .number (a.toNumber + b.toNumber)
  | .subtract => .number (a.toNumber - b.toNumber)
  | .multiply => .number (a.toNumber * b.toNumber)
  | .divide => .number (a.toNumber / b.toNumber)
  | .remainder => .number (Number.remainder a.toNumber b.toNumber)
  | .equal => .bool (a.looseEq b)
  | .notEqual => .bool (!a.looseEq b)
  | .strictEqual => .bool (a.strictEq b)
  | .strictNotEqual => .bool (!a.strictEq b)
  | .less => .bool (a.compare? b = some .lt)
  | .lessEqual => .bool (a.compare? b = some .lt || a.compare? b = some .eq)
  | .greater => .bool (a.compare? b = some .gt)
  | .greaterEqual => .bool (a.compare? b = some .gt || a.compare? b = some .eq)

def UnaryOp.apply (op : UnaryOp) (v : Value) : Value :=
  match op with
  | .not => .bool (!v.truthy)
  | .negate => .number (-v.toNumber)
  | .plus => .number v.toNumber
  | .typeof => .string v.typeName

/-- The value decides a logical operator without the second operand. -/
def LogicalOp.decides (op : LogicalOp) (v : Value) : Bool :=
  match op with
  | .and => !v.truthy
  | .or => v.truthy
  | .coalesce => !v.isAbsent

def Step.apply (step : Step) (x : Float) : Float :=
  match step with
  | .up => x + 1.0
  | .down => x + -1.0

end ModuleLoader.Script
