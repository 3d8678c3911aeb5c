import ModuleLoader.Dict
import ModuleLoader.Script.Value

/-!
The heap of a script run: scope frames, objects, arrays and functions. It only grows, so an index
once given out stays valid and never changes its meaning.
-/
namespace ModuleLoader.Script

/-- A variable in a frame. -/
structure Binding where
  value : Value
  mutable : Bool

abbrev Frame := Dict Binding

/-- A function together with the scope it was made in. -/
structure Closure where
  literal : FunctionDef
  scope : Scope

/-- Everything that scripts can share. -/
structure Heap where
  frames : Array Frame
  objects : Array (Dict Value)
  arrays : Array (Array Value)
  closures : Array Closure

namespace Heap

def empty : Heap :=
  ⟨#[], #[], #[], #[]⟩

/-! ### Access -/

def frame (h : Heap) (id : FrameId) : Frame :=
  h.frames.getD id []

def object (h : Heap) (id : ObjectId) : Dict Value :=
  h.objects.getD id []

def array (h : Heap) (id : ArrayId) : Array Value :=
  h.arrays.getD id #[]

def closure (h : Heap) (id : FunctionId) : Closure :=
  h.closures.getD id ⟨default, []⟩

/-! ### Growth -/

def newFrame (h : Heap) (f : Frame) : FrameId × Heap :=
  (h.frames.size, { h with frames := h.frames.push f })

def newObject (h : Heap) (d : Dict Value) : ObjectId × Heap :=
  (h.objects.size, { h with objects := h.objects.push d })

def newArray (h : Heap) (items : Array Value) : ArrayId × Heap :=
  (h.arrays.size, { h with arrays := h.arrays.push items })

def newClosure (h : Heap) (c : Closure) : FunctionId × Heap :=
  (h.closures.size, { h with closures := h.closures.push c })

/-! ### Change -/

def modifyFrame (h : Heap) (id : FrameId) (f : Frame → Frame) : Heap :=
  { h with frames := h.frames.modify id f }

def modifyObject (h : Heap) (id : ObjectId) (f : Dict Value → Dict Value) : Heap :=
  { h with objects := h.objects.modify id f }

def modifyArray (h : Heap) (id : ArrayId) (f : Array Value → Array Value) : Heap :=
  { h with arrays := h.arrays.modify id f }

def setProperty (h : Heap) (id : ObjectId) (key : String) (value : Value) : Heap :=
  h.modifyObject id fun d => d.insert key value

def push (h : Heap) (id : ArrayId) (value : Value) : Heap :=
  h.modifyArray id fun items => items.push value

/-- Sets an item; what lies between the end and the item becomes `undefined`. -/
def setItem (h : Heap) (id : ArrayId) (index : Nat) (value : Value) : Heap :=
  h.modifyArray id fun items =>
    if index < items.size then items.set! index value
    else (items ++ Array.replicate (index - items.size) Value.undefined).push value

/-! ### Variables -/

def declare (h : Heap) (id : FrameId) (name : String) (value : Value) (mutable : Bool) : Heap :=
  h.modifyFrame id fun f => f.insert name ⟨value, mutable⟩

def binding? (h : Heap) : Scope → String → Option Binding
  | [], _ => none
  | id :: outer, name =>
    match (h.frame id).get? name with
    | some b => some b
    | none => h.binding? outer name

def lookup? (h : Heap) (scope : Scope) (name : String) : Option Value :=
  (h.binding? scope name).map Binding.value

/-- Why an assignment fails. -/
inductive AssignFault where
  | undeclared
  | constant
deriving Repr, DecidableEq

/-- Why an assignment to a name fails, if it does: its innermost binding has to be mutable. -/
def assignFault? (h : Heap) (scope : Scope) (name : String) : Option AssignFault :=
  match h.binding? scope name with
  | none => some .undeclared
  | some b => if b.mutable then none else some .constant

/-- Assigns to the innermost binding of a name; without one nothing changes. -/
def assign (h : Heap) : Scope → String → Value → Heap
  | [], _, _ => h
  | id :: outer, name, value =>
    if (h.frame id).contains name then h.declare id name value true
    else h.assign outer name value

end Heap

end ModuleLoader.Script
