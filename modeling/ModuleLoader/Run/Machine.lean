import ModuleLoader.Loading.Loader
import ModuleLoader.Script.Render

/-!
The state that a run works on, and runs themselves. A run ends in a value or in an exception, with
a new state either way; or it is cut off for lack of fuel, which is neither.
-/
namespace ModuleLoader

open Script

/-- Where printed text goes: kept, or refused for a reason. -/
inductive Output where
  | kept (text : String)
  | refused (reason : String)
deriving Repr, DecidableEq

/-- The state of a run. `depth` counts the script functions entered and not left; `deepest` is the
largest depth so far. -/
structure Machine where
  heap : Heap
  output : Output
  depth : Nat
  maxDepth : Nat
  deepest : Nat
  loader : Loader

/-- What cuts a run short. -/
inductive Exception where
  /-- A value thrown by a script, or by an operation that failed. -/
  | thrown (value : Value)
  /-- A module could not be had. -/
  | load (error : LoadFault)
  /-- A value thrown out of the module at a path. -/
  | uncaught (path : Path) (value : Value)

def Exception.message (h : Heap) : Exception → String
  | thrown v => h.thrownText v
  | load e => e.message
  | uncaught _ v => h.thrownText v

/-- The exception as the failure of a load. A value that was thrown outside all modules is put down
to `fallback`. -/
def Exception.toLoadFault (h : Heap) (fallback : Path) : Exception → LoadFault
  | thrown v => .uncaught fallback (h.thrownText v)
  | load e => e
  | uncaught path v => .uncaught path (h.thrownText v)

abbrev Run (α : Type) := ExceptT Exception (StateT Machine Option) α

namespace Run

variable {α : Type}

def cutOff : Run α :=
  ExceptT.mk fun _ => none

def stop (e : Exception) : Run α :=
  throw e

/-- What a run ends in, as a value; an exception does not get out. -/
def attempt (x : Run α) : Run (Except Exception α) :=
  ExceptT.mk (x.run >>= fun r => pure (.ok r))

def resume (r : Except Exception α) : Run α :=
  ExceptT.mk (pure r)

def machine : Run Machine :=
  get

def heap : Run Heap := do
  return (← get).heap

def withHeap (f : Heap → α × Heap) : Run α :=
  modifyGet fun m =>
    let (a, h) := f m.heap
    (a, { m with heap := h })

def modifyHeap (f : Heap → Heap) : Run Unit :=
  modify fun m => { m with heap := f m.heap }

def modifyLoader (f : Loader → Loader) : Run Unit :=
  modify fun m => { m with loader := f m.loader }

def newObject (d : Dict Value) : Run Value := do
  return .object (← withHeap fun h => h.newObject d)

def newArray (items : Array Value) : Run Value := do
  return .array (← withHeap fun h => h.newArray items)

def newFunction (literal : FunctionDef) (scope : Scope) : Run Value := do
  return .function (← withHeap fun h => h.newClosure ⟨literal, scope⟩)

def newScope (outer : Scope) (frame : Frame) : Run Scope := do
  return (← withHeap fun h => h.newFrame frame) :: outer

def raise (name message : String) : Run α := do
  let v ← newObject [("name", .string name), ("message", .string message)]
  throw (.thrown v)

/-- The value that a `catch` clause binds. -/
def caught : Exception → Run Value
  | .thrown v => return v
  | .uncaught _ v => return v
  | .load e => newObject
      [("name", .string "Error"), ("message", .string e.message), ("code", .string e.code)]

def declare (scope : Scope) (name : String) (value : Value) (mutable : Bool) : Run Unit :=
  match scope with
  | [] => return ()
  | frame :: _ => modifyHeap fun h => h.declare frame name value mutable

def enter : Run Unit :=
  modify fun m => { m with depth := m.depth + 1, deepest := max m.deepest (m.depth + 1) }

def leave : Run Unit :=
  modify fun m => { m with depth := m.depth - 1 }

def printLine (line : String) : Run Unit := do
  match (← get).output with
  | .refused reason => raise "Error" ("write failed: " ++ reason)
  | .kept _ => modify fun m =>
    match m.output with
    | .kept text => { m with output := .kept (text ++ line ++ "\n") }
    | .refused _ => m

end Run

end ModuleLoader
