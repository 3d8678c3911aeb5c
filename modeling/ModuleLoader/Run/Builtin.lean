import ModuleLoader.Json.Printer
import ModuleLoader.Run.Machine
import ModuleLoader.Script.Property

/-!
The globals that every module shares, and the host functions among them that need no loader.
-/
namespace ModuleLoader

open Script

def globalFrame : FrameId := 0

def globalScope : Scope := [globalFrame]

/-- The object that scripts know as `global`. -/
def globalObject : ObjectId := 0

/-- The heap of a new realm: the globals, none of which can be assigned to, and the objects they
are bound to. -/
def realm : Heap :=
  { frames := #[[
      ("global", ⟨.object 0, false⟩), ("globalThis", ⟨.object 0, false⟩),
      ("print", ⟨.native .print, false⟩), ("console", ⟨.object 1, false⟩),
      ("JSON", ⟨.object 2, false⟩), ("Object", ⟨.object 3, false⟩),
      ("undefined", ⟨.undefined, false⟩), ("NaN", ⟨.number notANumber, false⟩),
      ("Infinity", ⟨.number (Float.ofBits 0x7ff0000000000000), false⟩)]]
    objects := #[
      [],
      [("log", .native .log), ("error", .native .error)],
      [("stringify", .native .stringify), ("parse", .native .parse)],
      [("keys", .native .keys)]]
    arrays := #[]
    closures := #[] }

namespace Builtin

def print (args : List Value) : Run Value := do
  let h ← Run.heap
  Run.printLine (" ".intercalate (args.map h.inspect))
  return .undefined

/-- The JSON text of the first argument, indented if the third says so. -/
def stringify (args : List Value) : Run Value := do
  let h ← Run.heap
  match h.toJson (args.head?.getD .undefined) with
  | .error .circular => Run.raise "TypeError" JsonFault.circular.message
  | .error .tooDeep => Run.raise "RangeError" JsonFault.tooDeep.message
  | .ok none => return .undefined
  | .ok (some j) =>
    return .string (if args[2]?.any Value.truthy then j.pretty else j.compact)

def parse (args : List Value) : Run Value := do
  let h ← Run.heap
  match Json.read ((args.head?.map h.display).getD "undefined") with
  | .ok j => Run.withHeap fun h => h.ofJson j
  | .error e => Run.raise "SyntaxError" e.message

/-- The keys of an object, or the indices of an array; other values have none. -/
def keys (args : List Value) : Run Value := do
  let h ← Run.heap
  match args.head? with
  | some (.object id) => Run.newArray ((h.object id).keys.map Value.string).toArray
  | some (.array id) =>
    Run.newArray ((List.range (h.array id).size).map fun i => Value.string (toString i)).toArray
  | some .undefined | some .null =>
    Run.raise "TypeError" "Cannot convert undefined or null to object"
  | _ => Run.newArray #[]

/-- Puts the arguments behind the items of an array; gives its new length. -/
def push (this : Value) (args : List Value) : Run Value := do
  match this with
  | .array id =>
    Run.modifyHeap fun h => h.modifyArray id fun items => items ++ args.toArray
    return .number (Float.ofNat ((← Run.heap).array id).size)
  | _ => Run.raise "TypeError" "push called on a non-array"

def join (this : Value) (args : List Value) : Run Value := do
  let h ← Run.heap
  match this with
  | .array id =>
    let separator := match args.head? with
      | none | some .undefined => ","
      | some v => h.display v
    return .string (separator.intercalate ((h.array id).toList.map fun v =>
      if v.isAbsent then "" else h.display v))
  | _ => Run.raise "TypeError" "join called on a non-array"

/-- What a host function does when it is called, unless it loads a module. A function of the
embedding program does nothing here and gives `undefined`. -/
def call (n : Native) (this : Value) (args : List Value) : Run Value :=
  match n with
  | .print | .log | .error => print args
  | .stringify => stringify args
  | .parse => parse args
  | .keys => keys args
  | .push => push this args
  | .join => join this args
  | .require _ | .host _ _ => return .undefined

end Builtin

end ModuleLoader
