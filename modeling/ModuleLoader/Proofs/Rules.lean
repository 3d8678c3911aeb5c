import ModuleLoader.Proofs.Cursors
import ModuleLoader.Proofs.Grammar

/-! The rules of the grammar as walks. Each rule goes on through others, and a loop through itself:
nothing bounds how often. A construct counts its level of nesting and a loop counts itself for as
long as what they hold is walked through, and take that back however it ends. -/
namespace ModuleLoader.Script

/-- What comes of a construct whose nesting is counted. -/
abbrev Construct.Tree : Construct → Type
  | .statement => Stmt
  | .expression | .unaryExpression => Expr

/-- What stands between the commas of a list. -/
inductive Item where
  | argument | property | parameter

abbrev Item.Tree : Item → Type
  | .argument => Expr
  | .property => String × Expr
  | .parameter => String

/-- What a token makes of two operands of the level, if it joins them from the left. -/
def Level.join? : Level → Token → Option (Expr → Expr → Expr)
  | .multiplicative, t => (multiplicativeOp? t).map Expr.join
  | .additive, t => (additiveOp? t).map Expr.join
  | .relational, t => (relationalOp? t).map Expr.join
  | .equality, t => (equalityOp? t).map Expr.join
  | .conjunction, t => (andOp? t).map Expr.joinLogical
  | .disjunction, t => (orOp? t).map Expr.joinLogical
  | _, _ => none

/-- What can be walked through, and what comes of it. A loop that is under way knows what came of
the turns `before`. -/
inductive Rule : Type → Type where
  | program : Rule Program
  | statements (before : List Stmt) : Rule (List Stmt)
  /-- A construct one level of nesting further in. -/
  | nested (what : Construct) : Rule what.Tree
  | anyStatement : Rule Stmt
  | block : Rule (List Stmt × Span)
  | blockStatements (before : List Stmt) : Rule (List Stmt)
  | declaration : Rule Stmt
  | declarator (kind : DeclarationWord) : Rule ((String × Option Expr) × Span)
  | declarators (kind : DeclarationWord) (before : List (String × Option Expr)) :
      Rule (List (String × Option Expr) × Span)
  | parenthesized : Rule Expr
  | ifStatement : Rule Stmt
  | whileStatement : Rule Stmt
  | forStatement : Rule Stmt
  | forInit : Rule (Option Stmt)
  | expressionUnless (mark : Symbol) : Rule (Option Expr)
  | loopBody : Rule Stmt
  | tryStatement : Rule Stmt
  | catchClause : Rule (Option String × Option (List Stmt × Span))
  | finallyClause : Rule (Option (List Stmt × Span))
  | returnStatement : Rule Stmt
  | throwStatement : Rule Stmt
  | level (l : Level) : Rule Expr
  | chain (l : Level) (before : Expr) : Rule Expr
  | prefixUpdate (step : Step) : Rule Expr
  | suffixes (before : Expr) : Rule Expr
  | item (i : Item) : Rule i.Tree
  | items (i : Item) (close : Symbol) (before : List i.Tree) : Rule (List i.Tree)
  | objectLiteral : Rule Expr
  | functionLiteral (isDeclaration : Bool) : Rule FunctionDef
  | functionRest (name : Option String) (start : Span) : Rule FunctionDef
  | functionBody : Rule (List Stmt × Span)

/-- What stands one level of nesting further in. -/
def Construct.rule : (what : Construct) → Rule what.Tree
  | .statement => .anyStatement
  | .expression => .level .assignment
  | .unaryExpression => .level .unary

namespace Walk

def endStatement : Walk Unit := do
  let _ ← skip .semicolon

def exitStatement (word : Keyword) (make : Span → Stmt) : Walk Stmt := do
  if ← inLoop then return make (← advance)
  else fail fun _ => .strayExit word

def catchParam : Walk (Option String) := do
  if ← skip .leftParen then
    let (name, _) ← identifier
    let _ ← expect .rightParen
    return some name
  else return none

def memberName : Walk (String × Span) := do
  match (← current).asName? with
  | some name => return (name, ← advance)
  | none => fail .expectedProperty

def updateOf (step : Step) (side : Side) (target : Expr) (start : Span) : Walk Expr := do
  if target.isTarget then return .update step side target (start.merge target.span)
  else failAt .invalidUpdate target.span

/-- The key of a property, and whether the key may be all there is to it. -/
def propertyKey : Walk (String × Bool) := do
  match ← current with
  | .string key => return (key, false)
  | .number x => return (Number.text x, false)
  | .identifier name => return (name, true)
  | .keyword word => return (word.text, false)
  | _ => fail .expectedProperty

end Walk

open Walk

/-- The walk through what a rule stands for. -/
def Rule.walk : {α : Type} → Rule α → Walk α
  | _, .program => do
    let start ← here
    let statements ← Rule.statements [] |>.walk
    return ⟨statements, start.merge (← here)⟩
  | _, .statements before => do
    if (← current).isFinish then return before
    else
      let s ← Rule.nested .statement |>.walk
      Rule.statements (before ++ [s]) |>.walk
  | _, .nested what => fun c =>
    if maxNesting < c.depth + 1 then
      (fail fun _ => .tooDeep maxNesting what : Walk what.Tree).run.run c
    else do
      -- What ends at a fault inside has been counted as well, and is taken back as well.
      let (result, c) ← (what.rule |>.walk).run.run { c with depth := c.depth + 1 }
      return (result, { c with depth := c.depth - 1 })
  | _, .anyStatement => do
    match ← current with
    | .keyword .«let» | .keyword .«const» | .keyword .«var» =>
      let s ← Rule.declaration |>.walk
      endStatement
      return s
    | .keyword .function => return .function (← Rule.functionLiteral true |>.walk)
    | .keyword .«if» => Rule.ifStatement |>.walk
    | .keyword .«while» => Rule.whileStatement |>.walk
    | .keyword .«for» => Rule.forStatement |>.walk
    | .keyword .«try» => Rule.tryStatement |>.walk
    | .keyword .«return» =>
      let s ← Rule.returnStatement |>.walk
      endStatement
      return s
    | .keyword .throw =>
      let s ← Rule.throwStatement |>.walk
      endStatement
      return s
    | .keyword .«break» =>
      let s ← Walk.exitStatement .«break» .«break»
      endStatement
      return s
    | .keyword .«continue» =>
      let s ← Walk.exitStatement .«continue» .«continue»
      endStatement
      return s
    | .keyword .new => fail fun _ => .reservedWord .new
    | .symbol .leftBrace =>
      let (body, span) ← Rule.block |>.walk
      return .block body span
    | .symbol .semicolon => return .empty (← advance)
    | _ =>
      let e ← Rule.nested .expression |>.walk
      endStatement
      return .expression e
  | _, .block => do
    let start ← expect .leftBrace
    let body ← Rule.blockStatements [] |>.walk
    let stop ← advance
    return (body, start.merge stop)
  | _, .blockStatements before => do
    match ← current with
    | .symbol .rightBrace => return before
    | .finish => fail (.expectedToken [.symbol .rightBrace])
    | _ =>
      let s ← Rule.nested .statement |>.walk
      Rule.blockStatements (before ++ [s]) |>.walk
  | _, .declaration => do
    match declarationWord? (← current) with
    -- Whoever comes here has seen one of the words.
    | none => throw .lost
    | some kind =>
      let start ← advance
      let (declarations, stop) ← Rule.declarators kind [] |>.walk
      return .declaration kind declarations (start.merge stop)
  | _, .declarator kind => do
    let (name, span) ← identifier
    if ← skip .assign then
      let value ← Rule.nested .expression |>.walk
      return ((name, some value), value.span)
    else if kind = .«const» then failAt (.missingInitializer name) span
    else return ((name, none), span)
  | _, .declarators kind before => do
    let (d, stop) ← Rule.declarator kind |>.walk
    if ← skip .comma then Rule.declarators kind (before ++ [d]) |>.walk
    else return (before ++ [d], stop)
  | _, .parenthesized => do
    let _ ← expect .leftParen
    let e ← Rule.nested .expression |>.walk
    let _ ← expect .rightParen
    return e
  | _, .ifStatement => do
    let start ← advance
    let condition ← Rule.parenthesized |>.walk
    let consequent ← Rule.nested .statement |>.walk
    if ← skipWord .«else» then
      let alternate ← Rule.nested .statement |>.walk
      return .«if» condition consequent (some alternate) (start.merge alternate.span)
    else return .«if» condition consequent none (start.merge consequent.span)
  | _, .whileStatement => do
    let start ← advance
    let condition ← Rule.parenthesized |>.walk
    let body ← Rule.loopBody |>.walk
    return .«while» condition body (start.merge body.span)
  | _, .forStatement => do
    let start ← advance
    let _ ← expect .leftParen
    let init ← Rule.forInit |>.walk
    let _ ← expect .semicolon
    let condition ← Rule.expressionUnless .semicolon |>.walk
    let _ ← expect .semicolon
    let update ← Rule.expressionUnless .rightParen |>.walk
    let _ ← expect .rightParen
    let body ← Rule.loopBody |>.walk
    return .«for» init condition update body (start.merge body.span)
  | _, .forInit => do
    let t ← current
    match declarationWord? t with
    | some _ => return some (← Rule.declaration |>.walk)
    | none =>
      if t.isSymbol .semicolon then return none
      else return some (.expression (← Rule.nested .expression |>.walk))
  | _, .expressionUnless mark => do
    if ← isAt mark then return none
    else return some (← Rule.nested .expression |>.walk)
  | _, .loopBody => fun c => do
    let (result, c) ← (Rule.nested .statement |>.walk).run.run { c with loops := c.loops + 1 }
    return (result, { c with loops := c.loops - 1 })
  | _, .tryStatement => do
    let start ← advance
    let (body, bodySpan) ← Rule.block |>.walk
    let (param, handler) ← Rule.catchClause |>.walk
    let finalizer ← Rule.finallyClause |>.walk
    match handler, finalizer with
    | none, none => fail (.expectedToken [.keyword .«catch», .keyword .«finally»])
    | _, _ =>
      let stop := ((finalizer.map Prod.snd).or (handler.map Prod.snd)).getD bodySpan
      return .«try» body param (handler.map Prod.fst) (finalizer.map Prod.fst) (start.merge stop)
  | _, .catchClause => do
    if ← skipWord .«catch» then
      let param ← Walk.catchParam
      return (param, some (← Rule.block |>.walk))
    else return (none, none)
  | _, .finallyClause => do
    if ← skipWord .«finally» then return some (← Rule.block |>.walk)
    else return none
  | _, .returnStatement => do
    let start ← advance
    if startsValue (← current) then
      let value ← Rule.nested .expression |>.walk
      return .«return» (some value) (start.merge value.span)
    else return .«return» none start
  | _, .throwStatement => do
    let start ← advance
    let value ← Rule.nested .expression |>.walk
    return .throw value (start.merge value.span)
  | _, .level .assignment => do
    let target ← Rule.level .conditional |>.walk
    match assignOp? (← current) with
    | none => return target
    | some op =>
      if target.isTarget then
        let _ ← advance
        let value ← Rule.nested .expression |>.walk
        return .assign op target value (target.span.merge value.span)
      else failAt .invalidAssignment target.span
  | _, .level .conditional => do
    let test ← Rule.level .disjunction |>.walk
    if ← skip .question then
      let consequent ← Rule.nested .expression |>.walk
      let _ ← expect .colon
      let alternate ← Rule.nested .expression |>.walk
      return .conditional test consequent alternate (test.span.merge alternate.span)
    else return test
  | _, .level .unary => do
    let t ← current
    match unaryOp? t, step? t with
    | some op, _ =>
      let start ← advance
      let operand ← Rule.nested .unaryExpression |>.walk
      return .unary op operand (start.merge operand.span)
    | none, some step => Rule.prefixUpdate step |>.walk
    | none, none => Rule.level .postfixed |>.walk
  | _, .level .postfixed => do
    let e ← Rule.level .callMember |>.walk
    match step? (← current) with
    | some step =>
      let stop ← advance
      Walk.updateOf step .after e (e.span.merge stop)
    | none => return e
  | _, .level .callMember => do
    let e ← Rule.level .primary |>.walk
    Rule.suffixes e |>.walk
  | _, .level .primary => do
    let span ← here
    match ← current with
    | .number x => return .number x (← advance)
    | .string s => return .string s (← advance)
    | .keyword .true => return .bool true (← advance)
    | .keyword .false => return .bool false (← advance)
    | .keyword .null => return .null (← advance)
    | .keyword .this => return .this (← advance)
    | .identifier name => return .identifier name (← advance)
    | .symbol .leftParen =>
      let _ ← advance
      let inner ← Rule.nested .expression |>.walk
      let _ ← expect .rightParen
      return inner
    | .symbol .leftBracket =>
      let _ ← advance
      let items ← Rule.items .argument .rightBracket [] |>.walk
      let stop ← expect .rightBracket
      return .array items (span.merge stop)
    | .symbol .leftBrace => Rule.objectLiteral |>.walk
    | .keyword .function => return .function (← Rule.functionLiteral false |>.walk)
    | .keyword .new => fail fun _ => .reservedWord .new
    | _ => fail .expectedExpression
  | _, .level l => do
    let first ← Rule.level l.tighter |>.walk
    Rule.chain l first |>.walk
  | _, .chain l before => do
    match l.join? (← current) with
    | none => return before
    | some join =>
      let _ ← advance
      let right ← Rule.level l.tighter |>.walk
      Rule.chain l (join before right) |>.walk
  | _, .prefixUpdate step => do
    let start ← advance
    let target ← Rule.nested .unaryExpression |>.walk
    Walk.updateOf step .before target start
  | _, .suffixes before => do
    match ← current with
    | .symbol .dot =>
      let _ ← advance
      let (name, stop) ← Walk.memberName
      Rule.suffixes (.member before name (before.span.merge stop)) |>.walk
    | .symbol .leftBracket =>
      let _ ← advance
      let index ← Rule.nested .expression |>.walk
      let stop ← expect .rightBracket
      Rule.suffixes (.index before index (before.span.merge stop)) |>.walk
    | .symbol .leftParen =>
      let _ ← advance
      let arguments ← Rule.items .argument .rightParen [] |>.walk
      let stop ← expect .rightParen
      Rule.suffixes (.call before arguments (before.span.merge stop)) |>.walk
    | _ => return before
  | _, .item .argument => Rule.nested .expression |>.walk
  | _, .item .property => do
    let span ← here
    let (key, isName) ← propertyKey
    let _ ← advance
    if isName && ((← isAt .comma) || (← isAt .rightBrace)) then
      return (key, .identifier key span)
    else
      let _ ← expect .colon
      return (key, ← Rule.nested .expression |>.walk)
  | _, .item .parameter => Prod.fst <$> identifier
  | _, .items i close before => do
    if ← isAt close then return before
    else
      let x ← Rule.item i |>.walk
      if ← skip .comma then Rule.items i close (before ++ [x]) |>.walk
      else return before ++ [x]
  | _, .objectLiteral => do
    let start ← expect .leftBrace
    let properties ← Rule.items .property .rightBrace [] |>.walk
    let stop ← expect .rightBrace
    return .object properties (start.merge stop)
  | _, .functionLiteral isDeclaration => do
    let start ← expectWord .function
    match ← current, isDeclaration with
    | .identifier _, _ | _, true =>
      let (name, _) ← identifier
      Rule.functionRest (some name) start |>.walk
    | _, false => Rule.functionRest none start |>.walk
  | _, .functionRest name start => do
    let _ ← expect .leftParen
    let params ← Rule.items .parameter .rightParen [] |>.walk
    let _ ← expect .rightParen
    let (body, stop) ← Rule.functionBody |>.walk
    return .mk name params body (start.merge stop)
  | _, .functionBody => fun c => do
    -- The loops around a function do not surround its body.
    let (result, c') ← (Rule.block |>.walk).run.run { c with loops := 0 }
    return (result, { c' with loops := c.loops })
partial_fixpoint

-- This is for the equations of the walk, not for `simp`: they are derived here, once, and the proofs
-- further on, which run side by side, need not all wait for them.
attribute [local simp] Rule.walk

/-- The script that a text spells, by the walk through its tokens; nothing if that never ends or is
lost. -/
def Program.walk? (source : String) : Option (Except SyntaxFault Program) :=
  match tokenize source with
  | .error errors => some (.error (.lexical errors))
  | .ok ts => do
    match ← Rule.program.walk.outcome (.start ts) with
    | (.ok p, _) => return .ok p
    | (.error (.fault e), _) => return .error (.parse e)
    | (.error .lost, _) => none

end ModuleLoader.Script
