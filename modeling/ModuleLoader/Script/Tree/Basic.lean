import ModuleLoader.Script.Span

/-!
The syntax tree of a script. Every node carries the stretch of source it was read from. The tree
can hold more than the grammar produces: an assignment to any expression, a `try` without
clauses, a loop exit outside a loop.
-/
namespace ModuleLoader.Script

/-- The word that declares a variable. -/
inductive DeclarationWord where
  | «let» | «const» | «var»
deriving Repr, DecidableEq

/-- An operator in front of its operand. -/
inductive UnaryOp where
  | not | negate | plus | typeof
deriving Repr, DecidableEq

/-- An operator whose operands are both evaluated. -/
inductive BinaryOp where
  | add | subtract | multiply | divide | remainder
  | equal | notEqual | strictEqual | strictNotEqual
  | less | lessEqual | greater | greaterEqual
deriving Repr, DecidableEq

/-- An operator that may skip its second operand. -/
inductive LogicalOp where
  | and | or | coalesce
deriving Repr, DecidableEq

/-- The direction of `++` and `--`. -/
inductive Step where
  | up | down
deriving Repr, DecidableEq

/-- Where the mark of an update stands, which decides its value: before the target for the new
value, after it for the old. -/
inductive Side where
  | before | after
deriving Repr, DecidableEq

mutual

/-- An expression. A plain assignment has no operator. -/
inductive Expr where
  | number (value : Float) (span : Span)
  | string (text : String) (span : Span)
  | bool (value : Bool) (span : Span)
  | null (span : Span)
  | identifier (name : String) (span : Span)
  | this (span : Span)
  | array (items : List Expr) (span : Span)
  | object (properties : List (String × Expr)) (span : Span)
  | function (literal : FunctionDef)
  | unary (op : UnaryOp) (operand : Expr) (span : Span)
  | binary (op : BinaryOp) (left right : Expr) (span : Span)
  | logical (op : LogicalOp) (left right : Expr) (span : Span)
  | conditional (test consequent alternate : Expr) (span : Span)
  | assign (op : Option BinaryOp) (target value : Expr) (span : Span)
  | update (step : Step) (side : Side) (target : Expr) (span : Span)
  | call (callee : Expr) (arguments : List Expr) (span : Span)
  | member (object : Expr) (property : String) (span : Span)
  | index (object index : Expr) (span : Span)

/-- The text of a function: in a declaration, or as a value. -/
inductive FunctionDef where
  | mk (name : Option String) (params : List String) (body : List Stmt) (span : Span)

/-- A statement. -/
inductive Stmt where
  | declaration (kind : DeclarationWord) (declarations : List (String × Option Expr)) (span : Span)
  | function (literal : FunctionDef)
  | expression (e : Expr)
  | «if» (condition : Expr) (consequent : Stmt) (alternate : Option Stmt) (span : Span)
  | «while» (condition : Expr) (body : Stmt) (span : Span)
  | «for» (init : Option Stmt) (condition update : Option Expr) (body : Stmt) (span : Span)
  | block (body : List Stmt) (span : Span)
  | «return» (value : Option Expr) (span : Span)
  | throw (value : Expr) (span : Span)
  | «break» (span : Span)
  | «continue» (span : Span)
  | «try» (block : List Stmt) (param : Option String) (handler finalizer : Option (List Stmt))
      (span : Span)
  | empty (span : Span)

end

namespace FunctionDef

def name : FunctionDef → Option String
  | mk name _ _ _ => name

def params : FunctionDef → List String
  | mk _ params _ _ => params

def body : FunctionDef → List Stmt
  | mk _ _ body _ => body

def span : FunctionDef → Span
  | mk _ _ _ span => span

end FunctionDef

instance : Inhabited FunctionDef := ⟨.mk none [] [] default⟩

def Expr.span : Expr → Span
  | number _ s | string _ s | bool _ s | null s | identifier _ s | this s | array _ s | object _ s
  | unary _ _ s | binary _ _ _ s | logical _ _ _ s | conditional _ _ _ s | assign _ _ _ s
  | update _ _ _ s | call _ _ s | member _ _ s | index _ _ s => s
  | function f => f.span

def Expr.isTarget : Expr → Bool
  | identifier _ _ | member _ _ _ | index _ _ _ => true
  | _ => false

def Stmt.span : Stmt → Span
  | declaration _ _ s | «if» _ _ _ s | «while» _ _ s | «for» _ _ _ _ s | block _ s | «return» _ s
  | throw _ s | «break» s | «continue» s | «try» _ _ _ _ s | empty s => s
  | function f => f.span
  | expression e => e.span

/-- A whole script. -/
structure Program where
  statements : List Stmt
  span : Span

def Program.isEmpty (p : Program) : Bool :=
  p.statements.isEmpty

def Program.size (p : Program) : Nat :=
  p.statements.length

end ModuleLoader.Script
