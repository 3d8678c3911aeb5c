import ModuleLoader.Script.Tree.Expression

/-!
The statements of the grammar. A simple statement may end in a semicolon; a block needs none.
-/
namespace ModuleLoader.Script

open Reading

/-- A variable of a declaration, with its value if it has one; says where it ends. Only a `const`
needs a value. -/
def declarator (n : Nested) (kind : DeclarationWord) : Reading ((String × Option Expr) × Span) := do
  let (name, span) ← identifier
  if ← skip .assign then
    let value ← n.expression
    return ((name, some value), value.span)
  else if kind = .«const» then failAt (.missingInitializer name) span
  else return ((name, none), span)

/-- One or more variables; says where the last ends. -/
def declarators (n : Nested) (kind : DeclarationWord) :
    Nat → Reading (List (String × Option Expr) × Span)
  | 0 => fail .expectedIdentifier
  | fuel + 1 => do
    let (first, stop) ← declarator n kind
    if ← skip .comma then
      let (rest, stop) ← declarators n kind fuel
      return (first :: rest, stop)
    else return ([first], stop)

/-- A variable declaration after its word, without a semicolon. -/
def declaration (n : Nested) (kind : DeclarationWord) : Reading Stmt := do
  let start ← advance
  let (declarations, stop) ← declarators n kind (← get).length
  return .declaration kind declarations (start.merge stop)

def declarationWord? : Token → Option DeclarationWord
  | .keyword .«let» => some .«let»
  | .keyword .«const» => some .«const»
  | .keyword .«var» => some .«var»
  | _ => none

def ended (s : Reading Stmt) : Reading Stmt := do
  let s ← s
  let _ ← skip .semicolon
  return s

def parenthesized (n : Nested) : Reading Expr := do
  let _ ← expect .leftParen
  let e ← n.expression
  let _ ← expect .rightParen
  return e

def ifStatement (n : Nested) (inLoop : Bool) : Reading Stmt := do
  let start ← advance
  let condition ← parenthesized n
  let consequent ← n.statement inLoop
  if ← skipWord .«else» then
    let alternate ← n.statement inLoop
    return .«if» condition consequent (some alternate) (start.merge alternate.span)
  else return .«if» condition consequent none (start.merge consequent.span)

def whileStatement (n : Nested) : Reading Stmt := do
  let start ← advance
  let condition ← parenthesized n
  let body ← n.statement true
  return .«while» condition body (start.merge body.span)

def forInit (n : Nested) : Reading (Option Stmt) := do
  let t ← current
  match declarationWord? t with
  | some kind => some <$> declaration n kind
  | none =>
    if t.isSymbol .semicolon then return none
    else return some (.expression (← n.expression))

def expressionUnless (n : Nested) (mark : Symbol) : Reading (Option Expr) := do
  if ← isAt mark then return none
  else return some (← n.expression)

def forStatement (n : Nested) : Reading Stmt := do
  let start ← advance
  let _ ← expect .leftParen
  let init ← forInit n
  let _ ← expect .semicolon
  let condition ← expressionUnless n .semicolon
  let _ ← expect .semicolon
  let update ← expressionUnless n .rightParen
  let _ ← expect .rightParen
  let body ← n.statement true
  return .«for» init condition update body (start.merge body.span)

/-- The name that a `catch` binds, if it binds one. -/
def catchParam : Reading (Option String) := do
  if ← skip .leftParen then
    let (name, _) ← identifier
    let _ ← expect .rightParen
    return some name
  else return none

/-- The parameter, body and place of a `catch` clause, if there is one. -/
def catchClause (n : Nested) (inLoop : Bool) :
    Reading (Option String × Option (List Stmt × Span)) := do
  if ← skipWord .«catch» then
    let param ← catchParam
    return (param, some (← block (n.statement inLoop)))
  else return (none, none)

/-- The body and place of a `finally` clause, if there is one. -/
def finallyClause (n : Nested) (inLoop : Bool) : Reading (Option (List Stmt × Span)) := do
  if ← skipWord .«finally» then return some (← block (n.statement inLoop))
  else return none

def tryStatement (n : Nested) (inLoop : Bool) : Reading Stmt := do
  let start ← advance
  let (body, bodySpan) ← block (n.statement inLoop)
  let (param, handler) ← catchClause n inLoop
  let finalizer ← finallyClause n inLoop
  match handler, finalizer with
  | none, none => fail (.expectedToken [.keyword .«catch», .keyword .«finally»])
  | _, _ =>
    let stop := ((finalizer.map Prod.snd).or (handler.map Prod.snd)).getD bodySpan
    return .«try» body param (handler.map Prod.fst) (finalizer.map Prod.fst) (start.merge stop)

/-- A value may follow `return`. -/
def startsValue (t : Token) : Bool :=
  !(t.isSymbol .semicolon || t.isSymbol .rightBrace || t.isFinish)

def returnStatement (n : Nested) : Reading Stmt := do
  let start ← advance
  if startsValue (← current) then
    let value ← n.expression
    return .«return» (some value) (start.merge value.span)
  else return .«return» none start

def throwStatement (n : Nested) : Reading Stmt := do
  let start ← advance
  let value ← n.expression
  return .throw value (start.merge value.span)

def exitStatement (word : Keyword) (make : Span → Stmt) (inLoop : Bool) : Reading Stmt := do
  if inLoop then return make (← advance)
  else fail fun _ => .strayExit word

def anyStatement (n : Nested) (inLoop : Bool) : Reading Stmt := do
  match ← current with
  | .keyword .«let» => ended (declaration n .«let»)
  | .keyword .«const» => ended (declaration n .«const»)
  | .keyword .«var» => ended (declaration n .«var»)
  | .keyword .function => return .function (← functionDeclaration n)
  | .keyword .«if» => ifStatement n inLoop
  | .keyword .«while» => whileStatement n
  | .keyword .«for» => forStatement n
  | .keyword .«try» => tryStatement n inLoop
  | .keyword .«return» => ended (returnStatement n)
  | .keyword .throw => ended (throwStatement n)
  | .keyword .«break» => ended (exitStatement .«break» .«break» inLoop)
  | .keyword .«continue» => ended (exitStatement .«continue» .«continue» inLoop)
  | .keyword .new => fail fun _ => .reservedWord .new
  | .symbol .leftBrace =>
    let (body, span) ← block (n.statement inLoop)
    return .block body span
  | .symbol .semicolon => return .empty (← advance)
  | _ => ended (.expression <$> n.expression)

end ModuleLoader.Script
