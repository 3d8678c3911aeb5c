import ModuleLoader.Run.Plan

/-!
Running scripts and loading modules. The two ask for each other: a script asks for a module, and
starting a module may call a function. Performing a task carries out its plan; fuel bounds how deep
tasks nest and how often each loop turns, and what ends does so with any larger fuel as well.
-/
namespace ModuleLoader

open Script

namespace Evaluate

/-! ### Acts on the machine -/

/-- The value of a property; the exception if there can be none. -/
def getProperty (target : Value) (key : String) : Run Value := do
  match (← Run.heap).getProperty target key with
  | .ok v => return v
  | .error e => Run.raise e.errorName e.message

def putProperty (target : Value) (key : String) (value : Value) : Run Unit := do
  match (← Run.heap).putFault? target key with
  | some e => Run.raise e.errorName e.message
  | none => Run.modifyHeap fun h => h.putProperty target key value

def getVariable (scope : Scope) (name : String) : Run Value := do
  match (← Run.heap).lookup? scope name with
  | some v => return v
  | none => Run.raise "ReferenceError" (name ++ " is not defined")

def putVariable (scope : Scope) (name : String) (value : Value) : Run Unit := do
  match (← Run.heap).assignFault? scope name with
  | some .undeclared => Run.raise "ReferenceError" (name ++ " is not defined")
  | some .constant => Run.raise "TypeError" "Assignment to constant variable."
  | none => Run.modifyHeap fun h => h.assign scope name value

def getPlace (scope : Scope) : Place → Run Value
  | .variable name => getVariable scope name
  | .property target key => getProperty target key

def putPlace (scope : Scope) (value : Value) : Place → Run Unit
  | .variable name => putVariable scope name value
  | .property target key => putProperty target key value

def calleeText : Expr → String
  | .identifier name _ => name
  | .member object property _ => calleeText object ++ "." ++ property
  | .this _ => "this"
  | _ => "expression"

/-- The function declarations among some statements take effect. -/
def hoist (scope : Scope) : List Stmt → Run Unit
  | [] => return ()
  | .function literal :: rest => do
    match literal.name with
    | some name => Run.declare scope name (← Run.newFunction literal scope) true
    | none => pure ()
    hoist scope rest
  | _ :: rest => hoist scope rest

/-- The frame of a call: `this`, then the parameters; those without an argument are `undefined`,
and of two parameters with one name the later counts. -/
def callFrame (this : Value) (params : List String) (args : List Value) : Frame :=
  go [("this", ⟨this, false⟩)] params args
where
  /-- Adds the parameters that are left. -/
  go (frame : Frame) : List String → List Value → Frame
    | [], _ => frame
    | p :: ps, [] => go (frame.insert p ⟨.undefined, true⟩) ps []
    | p :: ps, a :: as => go (frame.insert p ⟨a, true⟩) ps as

/-- The parameters of the function that a module's source is the body of. -/
def moduleParams : List String :=
  ["exports", "require", "module", "__filename", "__dirname"]

/-- A script without the line that names its interpreter. The end of that line stays. -/
def withoutInterpreterLine (source : String) : String :=
  match source.toList with
  | '#' :: '!' :: rest => String.ofList (rest.dropWhile (· ≠ '\n'))
  | _ => source

def withoutByteOrderMark (source : String) : String :=
  match source.toList with
  | '\ufeff' :: rest => String.ofList rest
  | _ => source

def moduleFunction (p : Program) : FunctionDef :=
  .mk none moduleParams p.statements p.span

/-- Compiles a source into a function in the scope of the globals. -/
def compile (source : String) : Run (Except SyntaxFault Value) := do
  match Program.ofSource (withoutInterpreterLine source) with
  | .error e => return .error e
  | .ok p => return .ok (← Run.newFunction (moduleFunction p) globalScope)

def sourceOf (id : Path) : Run String := do
  Run.modifyLoader fun l => l.note (.read id)
  match (← Run.machine).loader.files.readText id with
  | .ok text => return withoutByteOrderMark text
  | .error fault => Run.stop (.load (.unreadable id fault))

/-- Loads a file of data: its value is what the module exposes. -/
def loadJson (m : Module) : Run Unit := do
  match Json.read (← sourceOf m.id) with
  | .error e => Run.stop (.load (.invalidJson m.id e))
  | .ok j =>
    let v ← Run.withHeap fun h => h.ofJson j
    Run.modifyHeap fun h => m.expose h v

/-- An exception on its way out of a module: a value that was thrown there is put down to it. -/
def leaving (id : Path) : Exception → Exception
  | .thrown v => .uncaught id v
  | e => e

def register (id : Path) : Run Registry.Answer :=
  modifyGet fun m =>
    let (found, registry, heap) := m.loader.registry.demand m.heap id
    let event := match found with
      | .hit _ => Event.reused id
      | .registered _ => Event.registered id
    (found, { m with heap, loader := { m.loader.note event with registry } })

/-- The operator asks for the type of a variable that nothing declares. -/
def asksTypeOfUndeclared (h : Heap) (scope : Scope) (op : UnaryOp) (operand : Expr) : Bool :=
  match op, operand with
  | .typeof, .identifier name _ => (h.lookup? scope name).isNone
  | _, _ => false

/-- The function that a literal makes. With a name of its own it sees itself under that name. -/
def functionValue (literal : FunctionDef) (scope : Scope) : Run Value := do
  match literal.name with
  | none => Run.newFunction literal scope
  | some name =>
    let own ← Run.newScope scope []
    let f ← Run.newFunction literal own
    Run.declare own name f false
    return f

end Evaluate

namespace Plan

open Evaluate

/-! ### Statements -/

/-- Statements one after the other, until one ends other than normally. -/
def sequence (scope : Scope) : List Stmt → Plan Completion
  | [] => return .normal
  | s :: rest => do
    match ← statement s scope with
    | .normal => sequence scope rest
    | abrupt => return abrupt

/-- A list of statements in a scope: the functions among them are declared first, wherever they
stand. -/
def ofBody (statements : List Stmt) (scope : Scope) : Plan Completion := do
  hoist scope statements
  sequence scope statements

def inNewScope (statements : List Stmt) (outer : Scope) : Plan Completion := do
  body statements (← Run.newScope outer [])

def loop (condition : Plan Bool) (turn : Plan Completion) (update : Plan Unit) :
    Nat → Plan Completion
  | 0 => Run.cutOff
  | turns + 1 => do
    if ← condition then
      match ← turn with
      | .«break» => return .normal
      | .«return» v => return .«return» v
      | _ =>
        update
        loop condition turn update turns
    else return .normal

def declarations (kind : DeclarationWord) (scope : Scope) : List (String × Option Expr) → Plan Unit
  | [] => return ()
  | (name, init) :: rest => do
    let v ← match init with
      | some e => value e scope
      | none => pure .undefined
    Run.declare scope name v (kind ≠ .«const»)
    declarations kind scope rest

/-- The frame of a handler: its parameter bound to what was caught. -/
def handlerFrame (param : Option String) (e : Exception) : Run Frame :=
  match param with
  | some name => do return [(name, ⟨← Run.caught e, true⟩)]
  | none => return []

def handled (outcome : Except Exception Completion) (param : Option String)
    (handler : Option (List Stmt)) (scope : Scope) : Plan (Except Exception Completion) :=
  match outcome, handler with
  | .error e, some handler => do
    let frame ← handlerFrame param e
    attemptBody handler (← Run.newScope scope frame)
  | outcome, _ => return outcome

/-- How a guarded block ends if its finalizer has a say: it runs in any case, and how it ends counts
if it does not end normally. -/
def finalized (outcome : Except Exception Completion) (finalizer : Option (List Stmt))
    (scope : Scope) : Plan Completion :=
  match finalizer with
  | none => Run.resume outcome
  | some finalizer => do
    match ← inNewScope finalizer scope with
    | .normal => Run.resume outcome
    | abrupt => return abrupt

/-- A guarded block. An exception goes to the handler if there is one. -/
def guarded (block : List Stmt) (param : Option String) (handler finalizer : Option (List Stmt))
    (scope : Scope) : Plan Completion := do
  let outcome ← attemptBody block (← Run.newScope scope [])
  finalized (← handled outcome param handler scope) finalizer scope

/-- The plan for a statement, of which a loop turns at most a given number of times. -/
def ofStmt (turns : Nat) (scope : Scope) : Stmt → Plan Completion
  | .declaration kind ds _ => do
    declarations kind scope ds
    return .normal
  | .function _ => return .normal
  | .empty _ => return .normal
  | .expression e => do
    let _ ← value e scope
    return .normal
  | .«if» condition consequent alternate _ => do
    if (← value condition scope).truthy then statement consequent scope
    else match alternate with
      | some s => statement s scope
      | none => return .normal
  | .«while» condition turn _ =>
    loop (do return (← value condition scope).truthy) (statement turn scope) (pure ()) turns
  | .«for» init condition update turn _ => do
    let scope ← Run.newScope scope []
    match init with
    | some s => let _ ← statement s scope
    | none => pure ()
    loop
      (match condition with
        | some e => do return (← value e scope).truthy
        | none => return true)
      (statement turn scope)
      (match update with
        | some e => do let _ ← value e scope
        | none => return ())
      turns
  | .block statements _ => inNewScope statements scope
  | .«return» none _ => return .«return» .undefined
  | .«return» (some e) _ => do return .«return» (← value e scope)
  | .throw e _ => do
    let v ← value e scope
    Run.stop (.thrown v)
  | .«break» _ => return .«break»
  | .«continue» _ => return .«continue»
  | .«try» block param handler finalizer _ => guarded block param handler finalizer scope

/-! ### Expressions -/

def values (scope : Scope) : List Expr → Plan (List Value)
  | [] => return []
  | e :: rest => do
    let v ← value e scope
    return v :: (← values scope rest)

def properties (scope : Scope) : List (String × Expr) → Plan (List (String × Value))
  | [] => return []
  | (key, e) :: rest => do
    let v ← value e scope
    return (key, v) :: (← properties scope rest)

def ofExpr (scope : Scope) : Expr → Plan Value
  | .number x _ => return .number x
  | .string s _ => return .string s
  | .bool b _ => return .bool b
  | .null _ => return .null
  | .identifier name _ => getVariable scope name
  | .this _ => do return ((← Run.heap).lookup? scope "this").getD .undefined
  | .array items _ => do
    let vs ← values scope items
    Run.newArray vs.toArray
  | .object fields _ => do
    let pairs ← properties scope fields
    Run.newObject (Dict.ofPairs pairs)
  | .function literal => functionValue literal scope
  | .unary op operand _ => do
    if asksTypeOfUndeclared (← Run.heap) scope op operand then return .string "undefined"
    else return op.apply (← value operand scope)
  | .binary op left right _ => do
    let a ← value left scope
    let b ← value right scope
    return (← Run.heap).binary op a b
  | .logical op left right _ => do
    let a ← value left scope
    if op.decides a then return a else value right scope
  | .conditional test consequent alternate _ => do
    if (← value test scope).truthy then value consequent scope else value alternate scope
  | .assign none target e _ => do
    let p ← place target scope
    let v ← value e scope
    putPlace scope v p
    return v
  | .assign (some op) target e _ => do
    let p ← place target scope
    let current ← getPlace scope p
    let operand ← value e scope
    let v := (← Run.heap).binary op current operand
    putPlace scope v p
    return v
  | .update step side target _ => do
    let p ← place target scope
    let old := (← getPlace scope p).toNumber
    let new := step.apply old
    putPlace scope (.number new) p
    return .number (match side with | .before => new | .after => old)
  | .call callee arguments _ => do
    let (f, this) ← method callee scope
    let args ← values scope arguments
    if f.isCallable then call f this args
    else Run.raise "TypeError" (calleeText callee ++ " is not a function")
  | .member object property _ => do
    getProperty (← value object scope) property
  | .index object index _ => do
    let target ← value object scope
    let v ← value index scope
    getProperty target ((← Run.heap).keyOf v)

def ofTarget (scope : Scope) : Expr → Plan Place
  | .identifier name _ => return .variable name
  | .member object property _ => do return .property (← value object scope) property
  | .index object index _ => do
    let target ← value object scope
    let v ← value index scope
    return .property target ((← Run.heap).keyOf v)
  | _ => Run.raise "SyntaxError" "Invalid left-hand side in assignment"

/-- The plan for the function that a callee names, and for the value it is called on. -/
def ofCallee (scope : Scope) : Expr → Plan (Value × Value)
  | .member object property _ => do
    let target ← value object scope
    return (← getProperty target property, target)
  | .index object index _ => do
    let target ← value object scope
    let v ← value index scope
    return (← getProperty target ((← Run.heap).keyOf v), target)
  | e => do return (← value e scope, .undefined)

/-! ### Calls -/

/-- Calls a script function if it may be entered: its body is run in a new scope. -/
def callFunction (id : FunctionId) (this : Value) (args : List Value) : Plan Value := do
  let m ← Run.machine
  if m.maxDepth ≤ m.depth then Run.raise "RangeError" "Maximum call stack size exceeded"
  else
    Run.enter
    let closure := (← Run.heap).closure id
    let scope ← Run.newScope closure.scope (callFrame this closure.literal.params args)
    let outcome ← attemptBody closure.literal.body scope
    Run.leave
    return (← Run.resume outcome).value

def require (home : Path) (args : List Value) : Plan Value := do
  match args.head? with
  | some (.string reference) =>
    if (← Run.machine).loader.dropped then Run.raise "Error" "module loader has been dropped"
    else load reference home.directory
  | _ => Run.raise "TypeError" "The \"id\" argument must be of type string"

def ofCall (f this : Value) (args : List Value) : Plan Value :=
  match f with
  | .function id => callFunction id this args
  | .native (.require home) => require home args
  | .native n => Builtin.call n this args
  | v => Run.raise "TypeError" (v.typeName ++ " is not a function")

/-! ### Modules -/

/-- Loads a script: runs it once as the body of a function. -/
def startScript (m : Module) : Plan Unit := do
  match ← compile (← sourceOf m.id) with
  | .error e => Run.stop (.load (.malformed m.id e))
  | .ok f =>
    let exports := m.exposed (← Run.heap)
    let _ ← call f exports [exports, .native (.require m.id), .object m.object,
      .string m.id.text, .string m.directory.text]

def ofStart (m : Module) : Strategy → Plan Unit
  | .json => loadJson m
  | .script => startScript m

def conclude (m : Module) : Except Exception Unit → Plan Value
  | .ok () => do
    Run.modifyLoader fun l => l.settle m.id .loaded
    Run.modifyHeap fun h => m.announce h
    return m.exposed (← Run.heap)
  | .error e => do
    Run.modifyLoader fun l => l.settle m.id .failed
    Run.stop (leaving m.id e)

def loadNew (m : Module) : Plan Value := do
  match (← Run.machine).loader.strategyFor? m.id with
  | none => conclude m (.error (.load (.unknownExtension m.id (m.extension?.getD ""))))
  | some s =>
    Run.modifyLoader fun l => l.note (.started m.id s)
    conclude m (← attemptStart m s)

/-- The plan for what a reference stands for, seen from a directory. A module that is registered is
not loaded again, whatever came of its loading. -/
def ofLoad (reference : String) (dir : Path) : Plan Value := do
  Run.modifyLoader fun l => l.note (.sought (l.candidates reference dir))
  match (← Run.machine).loader.resolve reference dir with
  | .error e => Run.stop (.load e)
  | .ok id =>
    match ← register id with
    | .hit m => return m.exposed (← Run.heap)
    | .registered m => loadNew m

/-- The plan for a task, of which a loop turns at most a given number of times. -/
def ofTask (turns : Nat) : (t : Task) → Plan t.Result
  | .value e scope => ofExpr scope e
  | .place e scope => ofTarget scope e
  | .method e scope => ofCallee scope e
  | .statement s scope => ofStmt turns scope s
  | .body statements scope => ofBody statements scope
  | .call f this args => ofCall f this args
  | .load reference dir => ofLoad reference dir
  | .start m s => ofStart m s

end Plan

namespace Evaluate

def perform : Nat → (t : Task) → Run t.Result
  | 0, _ => Run.cutOff
  | n + 1, t => (Plan.ofTask n t).carryOut (perform n)

def call (fuel : Nat) (f this : Value) (args : List Value) : Run Value :=
  perform fuel (.call f this args)

def load (fuel : Nat) (reference : String) (dir : Path) : Run Value :=
  perform fuel (.load reference dir)

/-- Runs a script's statements in a scope; gives the value of a `return` among them. -/
def program (fuel : Nat) (p : Program) (scope : Scope) : Run Value := do
  let c : Completion ← perform fuel (.body p.statements scope)
  return c.value

end Evaluate

end ModuleLoader
