import ModuleLoader.Script.Token
import ModuleLoader.Script.Tree.Basic

/-!
Reading a tree off a token list. A reading step sees the tokens that are left and says what it
read and what is left after it; the closing `finish` is seen but never consumed. Faults are causes
with the stretch of source they are about.
-/
namespace ModuleLoader.Script

/-- The constructs whose nesting is bounded. -/
inductive Construct where
  | statement | expression | unaryExpression
deriving Repr, DecidableEq

def Construct.text : Construct → String
  | .statement => "statement"
  | .expression => "expression"
  | .unaryExpression => "unary expression"

/-- Why a token list is no script. -/
inductive ParseCause where
  /-- One of some tokens had to come here. -/
  | expectedToken (wanted : List Token) (found : Token)
  | expectedIdentifier (found : Token)
  | expectedExpression (found : Token)
  | expectedProperty (found : Token)
  /-- A `const` without a value. -/
  | missingInitializer (name : String)
  | invalidAssignment
  | invalidUpdate
  | reservedWord (word : Keyword)
  /-- A loop exit outside a loop. -/
  | strayExit (word : Keyword)
  /-- A construct would nest deeper than the limit. -/
  | tooDeep (limit : Nat) (what : Construct)

/-- The classes of causes. -/
inductive ParseFaultClass where
  | unexpectedToken | invalidAssignmentTarget | reservedWord | illegalStatement | limitExceeded
deriving Repr, DecidableEq

def ParseCause.kind : ParseCause → ParseFaultClass
  | .expectedToken _ _ | .expectedIdentifier _ | .expectedExpression _ | .expectedProperty _
  | .missingInitializer _ => .unexpectedToken
  | .invalidAssignment | .invalidUpdate => .invalidAssignmentTarget
  | .reservedWord _ => .reservedWord
  | .strayExit _ => .illegalStatement
  | .tooDeep _ _ => .limitExceeded

def ParseCause.text : ParseCause → String
  | .expectedToken wanted found =>
    "Expected " ++ " or ".intercalate (wanted.map Token.describe) ++ ", found " ++ found.describe
  | .expectedIdentifier found => "Expected identifier, found " ++ found.describe
  | .expectedExpression found => "Expected expression, found " ++ found.describe
  | .expectedProperty found => "Expected property name, found " ++ found.describe
  | .missingInitializer name => "Missing initializer in const declaration of '" ++ name ++ "'"
  | .invalidAssignment => "Invalid left-hand side in assignment"
  | .invalidUpdate => "Invalid operand for increment or decrement"
  | .reservedWord word => "'" ++ word.text ++ "' is a reserved word"
  | .strayExit word => "Illegal " ++ word.text ++ " statement outside of a loop"
  | .tooDeep limit what =>
    "Maximum nesting depth (" ++ toString limit ++ ") exceeded in " ++ what.text

abbrev ParseFault := Spanned ParseCause

def ParseFault.message (e : ParseFault) : String :=
  e.value.text ++ " at " ++ toString e.span.line ++ ":" ++ toString e.span.column

/-- The tokens that are left; the last is `finish`. -/
abbrev Tokens := List (Spanned Token)

def Tokens.current : Tokens → Token
  | [] => .finish
  | t :: _ => t.value

def Tokens.span : Tokens → Span
  | [] => default
  | t :: _ => t.span

/-- The tokens after the one to come; `finish` stays. -/
def Tokens.advance : Tokens → Tokens
  | [] => []
  | t :: rest => if t.value.isFinish then t :: rest else rest

abbrev Reading (α : Type) := StateT Tokens (Except ParseFault) α

namespace Reading

variable {α β : Type}

def failAt (cause : ParseCause) (span : Span) : Reading α :=
  throw ⟨cause, span⟩

def fail (cause : Token → ParseCause) : Reading α := do
  let ts ← get
  failAt (cause ts.current) ts.span

def current : Reading Token := do
  return (← get).current

def here : Reading Span := do
  return (← get).span

/-- Consumes the token to come; says where it was. -/
def advance : Reading Span := do
  let ts ← get
  set ts.advance
  return ts.span

def isAt (mark : Symbol) : Reading Bool := do
  return (← current).isSymbol mark

/-- Consumes this symbol if it comes next; says whether it did. -/
def skip (mark : Symbol) : Reading Bool := do
  if ← isAt mark then
    let _ ← advance
    return true
  else return false

/-- Consumes this reserved word if it comes next; says whether it did. -/
def skipWord (word : Keyword) : Reading Bool := do
  if (← current).isKeyword word then
    let _ ← advance
    return true
  else return false

def expect (mark : Symbol) : Reading Span := do
  if ← isAt mark then advance
  else fail (.expectedToken [.symbol mark])

def identifier : Reading (String × Span) := do
  match ← current with
  | .identifier name => return (name, ← advance)
  | .keyword .new => fail fun _ => .reservedWord .new
  | _ => fail .expectedIdentifier

/-- Reads operands as long as an operator comes next, and joins them from the left. Each turn
consumes a token, so the number of tokens left is fuel enough. -/
def chain (operand : Reading α) (op? : Token → Option β) (join : β → α → α → α) :
    Nat → α → Reading α
  | 0, left => return left
  | fuel + 1, left => do
    match op? (← current) with
    | none => return left
    | some op =>
      let _ ← advance
      let right ← operand
      chain operand op? join fuel (join op left right)

def leftAssociative (operand : Reading α) (op? : Token → Option β) (join : β → α → α → α) :
    Reading α := do
  let first ← operand
  if (op? (← current)).isSome then chain operand op? join (← get).length first
  else return first

/-- Items separated by commas up to a closing symbol, which is left; a last comma may follow the
last item. -/
def itemsUntil (close : Symbol) (item : Reading α) : Nat → Reading (List α)
  | 0 => return []
  | fuel + 1 => do
    if ← isAt close then return []
    else
      let x ← item
      if ← skip .comma then return x :: (← itemsUntil close item fuel)
      else return [x]

/-- A list of items, with its closing symbol; says where that was. -/
def listUntil (close : Symbol) (item : Reading α) : Reading (List α × Span) := do
  let items ← itemsUntil close item (← get).length
  return (items, ← expect close)

end Reading

end ModuleLoader.Script
