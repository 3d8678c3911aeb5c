import ModuleLoader.Number.Layout
import ModuleLoader.Script.Heap
import ModuleLoader.Text.Quoted

/-!
Values as text. Rendering follows arrays and objects through the heap and guards itself in two
ways: a container inside itself is not entered again, and at most `maxDepth` containers are entered
one inside the other. On values that are neither cyclic nor that deep no guard shows.
-/
namespace ModuleLoader.Script

/-- Rendering and conversion enter at most this many containers one inside the other. -/
def maxDepth : Nat := 256

/-- A container in the heap. -/
inductive Container where
  | array (id : ArrayId)
  | object (id : ObjectId)
deriving Repr, DecidableEq

namespace Heap

/-- A value as a part of a string, inside some arrays; `left` more may be entered. Absent items of
an array leave nothing, and so does an array that may not be entered. -/
def displayIn (h : Heap) (left : Nat) (inside : List ArrayId) : Value → String
  | .undefined => "undefined"
  | .null => "null"
  | .bool true => "true"
  | .bool false => "false"
  | .number x => Number.text x
  | .string s => s
  | .array id =>
    match left with
    | 0 => ""
    | left + 1 =>
      if inside.contains id then ""
      else ",".intercalate ((h.array id).toList.map fun v =>
        if v.isAbsent then "" else h.displayIn left (id :: inside) v)
  | .object _ => "[object Object]"
  | .function id => "function " ++ ((h.closure id).literal.name).getD "" ++ "() \x7b [code] \x7d"
  | .native n => "function " ++ n.name ++ "() \x7b [native code] \x7d"

def display (h : Heap) (v : Value) : String :=
  h.displayIn maxDepth [] v

def keyOf (h : Heap) : Value → String
  | .string s => s
  | .number x => Number.text x
  | v => h.display v

def isBareKey (key : String) : Bool :=
  match key.toList with
  | [] => false
  | c :: cs =>
    (c.isAlpha || c == '_' || c == '$') && cs.all fun c => c.isAlphanum || c == '_' || c == '$'

def keyText (key : String) : String :=
  if isBareKey key then key else "'" ++ key ++ "'"

def innerString (s : String) : String :=
  "'" ++ String.ofList (s.toList.flatMap fun c => if c = '\'' then ['\\', '\''] else [c]) ++ "'"

/-- A value inside some containers, spelled out for a reader; `left` more may be entered. -/
def inspectIn (h : Heap) (left : Nat) (inside : List Container) : Value → String
  | .string s => if inside.isEmpty then s else innerString s
  | .array id =>
    if inside.contains (.array id) then "[Circular]"
    else match left with
      | 0 => "[Array]"
      | left + 1 =>
        let items := (h.array id).toList
        if items.isEmpty then "[]"
        else "[ " ++ ", ".intercalate
          (items.map fun v => h.inspectIn left (.array id :: inside) v) ++ " ]"
  | .object id =>
    if inside.contains (.object id) then "[Circular]"
    else match left with
      | 0 => "[Object]"
      | left + 1 =>
        let fields := h.object id
        if fields.isEmpty then "\x7b\x7d"
        else "\x7b " ++ ", ".intercalate
          (fields.map fun (key, v) =>
            keyText key ++ ": " ++ h.inspectIn left (.object id :: inside) v) ++ " \x7d"
  | .function id =>
    match (h.closure id).literal.name with
    | some name => "[Function: " ++ name ++ "]"
    | none => "[Function (anonymous)]"
  | .native n => "[Function: " ++ n.name ++ "]"
  | v => h.display v

/-- A value spelled out for a reader: strings are quoted inside containers only. -/
def inspect (h : Heap) (v : Value) : String :=
  h.inspectIn maxDepth [] v

/-- A value spelled out for a programmer: strings are always quoted. -/
def debugText (h : Heap) : Value → String
  | .string s => Text.quoted s
  | v => h.inspect v

/-- A value that was thrown, in one line: an error's name and message, or the value itself. -/
def thrownText (h : Heap) (v : Value) : String :=
  match v with
  | .object id =>
    match (h.object id).get? "message" with
    | some (.string message) =>
      let name := match (h.object id).get? "name" with
        | some (.string name) => name
        | _ => "Error"
      name ++ ": " ++ message
    | _ => h.inspect v
  | _ => h.inspect v

end Heap

end ModuleLoader.Script
