import ModuleLoader.Run.Builtin
import ModuleLoader.Script.Operator

/-!
What an evaluation consists of. A task is one thing that has to be done: to find the value of an
expression, to execute a statement, to call a function, to load a module. A plan says how: by acts
on the machine, and by asking for other tasks, whose results decide how it goes on. An exception
ends a plan, unless the plan only attempted the task that it comes from.
-/
namespace ModuleLoader

open Script

/-- How a statement ended. -/
inductive Completion where
  | normal
  | «return» (value : Value)
  | «break»
  | «continue»

def Completion.value : Completion → Value
  | .«return» v => v
  | _ => .undefined

/-- A place that can be assigned to. -/
inductive Place where
  | variable (name : String)
  | property (target : Value) (key : String)

/-- Something to be done. -/
inductive Task where
  /-- The value of an expression. -/
  | value (e : Expr) (scope : Scope)
  /-- The place that a target of an assignment names. -/
  | place (target : Expr) (scope : Scope)
  /-- The function that a callee names, and the value it is called on. -/
  | method (callee : Expr) (scope : Scope)
  | statement (s : Stmt) (scope : Scope)
  /-- A list of statements; the functions that it declares are there from the beginning. -/
  | body (statements : List Stmt) (scope : Scope)
  | call (f this : Value) (args : List Value)
  /-- What a reference stands for, seen from a directory. -/
  | load (reference : String) (dir : Path)
  /-- What a strategy does for a module that was just registered. -/
  | start (m : Module) (s : Strategy)

abbrev Task.Result : Task → Type
  | value _ _ => Value
  | place _ _ => Place
  | method _ _ => Value × Value
  | statement _ _ => Completion
  | body _ _ => Completion
  | call _ _ _ => Value
  | load _ _ => Value
  | start _ _ => Unit

/-- A plan for something that gives an `α`. -/
inductive Plan (α : Type) : Type 1 where
  | done (result : α)
  /-- An act on the machine. -/
  | act {β : Type} (x : Run β) (next : β → Plan α)
  /-- A task, of which an exception ends the plan. -/
  | ask (t : Task) (next : t.Result → Plan α)
  /-- A task, of which an exception is handed on. -/
  | attempt (t : Task) (next : Except Exception t.Result → Plan α)

namespace Plan

variable {α β : Type}

def bind : Plan α → (α → Plan β) → Plan β
  | done a, f => f a
  | act x next, f => act x fun b => (next b).bind f
  | ask t next, f => ask t fun a => (next a).bind f
  | attempt t next, f => attempt t fun r => (next r).bind f

instance : Monad Plan where
  pure := done
  bind := bind

instance : MonadLift Run Plan where
  monadLift x := act x done

def carryOut (perform : (t : Task) → Run t.Result) : Plan α → Run α
  | done a => return a
  | act x next => do (next (← x)).carryOut perform
  | ask t next => do (next (← perform t)).carryOut perform
  | attempt t next => do (next (← Run.attempt (perform t))).carryOut perform

/-! ### Plans of one task -/

def value (e : Expr) (scope : Scope) : Plan Value :=
  ask (.value e scope) done

def place (target : Expr) (scope : Scope) : Plan Place :=
  ask (.place target scope) done

/-- Asks for the function that a callee names, and for the value it is called on. -/
def method (callee : Expr) (scope : Scope) : Plan (Value × Value) :=
  ask (.method callee scope) done

def statement (s : Stmt) (scope : Scope) : Plan Completion :=
  ask (.statement s scope) done

def body (statements : List Stmt) (scope : Scope) : Plan Completion :=
  ask (.body statements scope) done

def attemptBody (statements : List Stmt) (scope : Scope) : Plan (Except Exception Completion) :=
  attempt (.body statements scope) done

def call (f this : Value) (args : List Value) : Plan Value :=
  ask (.call f this args) done

def load (reference : String) (dir : Path) : Plan Value :=
  ask (.load reference dir) done

def attemptStart (m : Module) (s : Strategy) : Plan (Except Exception Unit) :=
  attempt (.start m s) done

end Plan

end ModuleLoader
