import ModuleLoader.Script.Tree.Reading

/-!
The levels of the expression grammar, loosest last: primary, call and member access, postfix,
unary, multiplicative, additive, relational, equality, `&&`, `||` and `??`, conditional,
assignment. Each level is a reading step over the one before it. Where the grammar turns back on
itself it does so through `Nested`, the readings one level of nesting further in.
-/
namespace ModuleLoader.Script

open Reading

/-- The readings one level of nesting further in. A statement is told whether a loop surrounds
it. -/
structure Nested where
  expression : Reading Expr
  operand : Reading Expr
  statement : (inLoop : Bool) → Reading Stmt

def equalityOp? : Token → Option BinaryOp
  | .symbol .equal => some .equal
  | .symbol .notEqual => some .notEqual
  | .symbol .strictEqual => some .strictEqual
  | .symbol .strictNotEqual => some .strictNotEqual
  | _ => none

def relationalOp? : Token → Option BinaryOp
  | .symbol .less => some .less
  | .symbol .lessEqual => some .lessEqual
  | .symbol .greater => some .greater
  | .symbol .greaterEqual => some .greaterEqual
  | _ => none

def additiveOp? : Token → Option BinaryOp
  | .symbol .plus => some .add
  | .symbol .minus => some .subtract
  | _ => none

def multiplicativeOp? : Token → Option BinaryOp
  | .symbol .times => some .multiply
  | .symbol .divide => some .divide
  | .symbol .remainder => some .remainder
  | _ => none

def andOp? : Token → Option LogicalOp
  | .symbol .and => some .and
  | _ => none

def orOp? : Token → Option LogicalOp
  | .symbol .or => some .or
  | .symbol .coalesce => some .coalesce
  | _ => none

def unaryOp? : Token → Option UnaryOp
  | .symbol .not => some .not
  | .symbol .minus => some .negate
  | .symbol .plus => some .plus
  | .keyword .typeof => some .typeof
  | _ => none

def step? : Token → Option Step
  | .symbol .increment => some .up
  | .symbol .decrement => some .down
  | _ => none

/-- The operator of an assignment: none inside for a plain one. -/
def assignOp? : Token → Option (Option BinaryOp)
  | .symbol .assign => some none
  | .symbol .plusAssign => some (some .add)
  | .symbol .minusAssign => some (some .subtract)
  | .symbol .timesAssign => some (some .multiply)
  | .symbol .divideAssign => some (some .divide)
  | .symbol .remainderAssign => some (some .remainder)
  | _ => none

def Expr.join (op : BinaryOp) (left right : Expr) : Expr :=
  .binary op left right (left.span.merge right.span)

def Expr.joinLogical (op : LogicalOp) (left right : Expr) : Expr :=
  .logical op left right (left.span.merge right.span)

def statementsUntilBrace (statement : Reading Stmt) : Nat → Reading (List Stmt)
  | 0 => return []
  | fuel + 1 => do
    match ← current with
    | .symbol .rightBrace => return []
    | .finish => fail (.expectedToken [.symbol .rightBrace])
    | _ =>
      let s ← statement
      return s :: (← statementsUntilBrace statement fuel)

def block (statement : Reading Stmt) : Reading (List Stmt × Span) := do
  let start ← expect .leftBrace
  let body ← statementsUntilBrace statement (← get).length
  let stop ← expect .rightBrace
  return (body, start.merge stop)

/-- The parameters and the body of a function, and where the body was. No loop surrounds the
body. -/
def functionRest (n : Nested) (name : Option String) (start : Span) : Reading FunctionDef := do
  let _ ← expect .leftParen
  let (params, _) ← listUntil .rightParen (Prod.fst <$> identifier)
  let (body, stop) ← block (n.statement false)
  return .mk name params body (start.merge stop)

def functionExpression (n : Nested) : Reading FunctionDef := do
  let start ← advance
  match ← current with
  | .identifier name =>
    let _ ← advance
    functionRest n (some name) start
  | _ => functionRest n none start

def functionDeclaration (n : Nested) : Reading FunctionDef := do
  let start ← advance
  let (name, _) ← identifier
  functionRest n (some name) start

/-- The value of a property after its key, which a colon has to follow. -/
def propertyValue (n : Nested) (key : String) : Reading (String × Expr) := do
  let _ ← advance
  let _ ← expect .colon
  return (key, ← n.expression)

/-- A property of an object literal. A name without a value stands for the variable so called. -/
def property (n : Nested) : Reading (String × Expr) := do
  let span ← here
  match ← current with
  | .string key => propertyValue n key
  | .number x => propertyValue n (Number.text x)
  | .keyword word => propertyValue n word.text
  | .identifier name =>
    let _ ← advance
    if (← isAt .comma) || (← isAt .rightBrace) then return (name, .identifier name span)
    else
      let _ ← expect .colon
      return (name, ← n.expression)
  | _ => fail .expectedProperty

/-- Literals, names, and everything in brackets. Parentheses leave no trace in the tree. -/
def primary (n : Nested) : Reading Expr := do
  let span ← here
  match ← current with
  | .number x => return .number x (← advance)
  | .string s => return .string s (← advance)
  | .keyword .true => return .bool true (← advance)
  | .keyword .false => return .bool false (← advance)
  | .keyword .null => return .null (← advance)
  | .keyword .this => return .this (← advance)
  | .identifier name => return .identifier name (← advance)
  | .symbol .leftParen =>
    let _ ← advance
    let inner ← n.expression
    let _ ← expect .rightParen
    return inner
  | .symbol .leftBracket =>
    let _ ← advance
    let (items, stop) ← listUntil .rightBracket n.expression
    return .array items (span.merge stop)
  | .symbol .leftBrace =>
    let _ ← advance
    let (properties, stop) ← listUntil .rightBrace (property n)
    return .object properties (span.merge stop)
  | .keyword .function => return .function (← functionExpression n)
  | .keyword .new => fail fun _ => .reservedWord .new
  | _ => fail .expectedExpression

def memberName : Reading (String × Span) := do
  match (← current).asName? with
  | some name => return (name, ← advance)
  | none => fail .expectedProperty

def opensSuffix (t : Token) : Bool :=
  t.isSymbol .dot || t.isSymbol .leftBracket || t.isSymbol .leftParen

/-- Member accesses, indices and calls after an expression, as many as follow. -/
def suffixes (n : Nested) : Nat → Expr → Reading Expr
  | 0, e => return e
  | fuel + 1, e => do
    match ← current with
    | .symbol .dot =>
      let _ ← advance
      let (name, stop) ← memberName
      suffixes n fuel (.member e name (e.span.merge stop))
    | .symbol .leftBracket =>
      let _ ← advance
      let index ← n.expression
      let stop ← expect .rightBracket
      suffixes n fuel (.index e index (e.span.merge stop))
    | .symbol .leftParen =>
      let _ ← advance
      let (arguments, stop) ← listUntil .rightParen n.expression
      suffixes n fuel (.call e arguments (e.span.merge stop))
    | _ => return e

def callMember (n : Nested) : Reading Expr := do
  let e ← primary n
  if opensSuffix (← current) then suffixes n (← get).length e
  else return e

/-- An update of a target; `start` is its mark, or the mark and the target. -/
def updateOf (step : Step) (side : Side) (target : Expr) (start : Span) : Reading Expr := do
  if target.isTarget then return .update step side target (start.merge target.span)
  else failAt .invalidUpdate target.span

def postfixed (n : Nested) : Reading Expr := do
  let e ← callMember n
  match step? (← current) with
  | some step =>
    let stop ← advance
    updateOf step .after e (e.span.merge stop)
  | none => return e

def unary (n : Nested) : Reading Expr := do
  let t ← current
  match unaryOp? t, step? t with
  | some op, _ =>
    let start ← advance
    let operand ← n.operand
    return .unary op operand (start.merge operand.span)
  | none, some step =>
    let start ← advance
    let target ← n.operand
    updateOf step .before target start
  | none, none => postfixed n

def multiplicative (n : Nested) : Reading Expr :=
  leftAssociative (unary n) multiplicativeOp? Expr.join

def additive (n : Nested) : Reading Expr :=
  leftAssociative (multiplicative n) additiveOp? Expr.join

def relational (n : Nested) : Reading Expr :=
  leftAssociative (additive n) relationalOp? Expr.join

def equality (n : Nested) : Reading Expr :=
  leftAssociative (relational n) equalityOp? Expr.join

def conjunction (n : Nested) : Reading Expr :=
  leftAssociative (equality n) andOp? Expr.joinLogical

def disjunction (n : Nested) : Reading Expr :=
  leftAssociative (conjunction n) orOp? Expr.joinLogical

def conditional (n : Nested) : Reading Expr := do
  let test ← disjunction n
  if ← skip .question then
    let consequent ← n.expression
    let _ ← expect .colon
    let alternate ← n.expression
    return .conditional test consequent alternate (test.span.merge alternate.span)
  else return test

def assignment (n : Nested) : Reading Expr := do
  let target ← conditional n
  match assignOp? (← current) with
  | none => return target
  | some op =>
    if target.isTarget then
      let _ ← advance
      let value ← n.expression
      return .assign op target value (target.span.merge value.span)
    else failAt .invalidAssignment target.span

end ModuleLoader.Script
