import ModuleLoader.Script.Lexer
import ModuleLoader.Script.Tree.Statement

/-!
Whole scripts. Statements, expressions and operands nest at most `maxNesting` deep: the readings
recurse on the number of levels that are left, and a construct that has none left is refused.
-/
namespace ModuleLoader.Script

open Reading

/-- Statements, expressions and operands of unary operators nest at most this deep. -/
def maxNesting : Nat := 48

def tooDeep {α : Type} (limit : Nat) (what : Construct) : Reading α :=
  fail fun _ => .tooDeep limit what

mutual

def statementAt (limit : Nat) : Nat → Bool → Reading Stmt
  | 0, _ => tooDeep limit .statement
  | left + 1, inLoop =>
    anyStatement ⟨expressionAt limit left, operandAt limit left, statementAt limit left⟩ inLoop

def expressionAt (limit : Nat) : Nat → Reading Expr
  | 0 => tooDeep limit .expression
  | left + 1 =>
    assignment ⟨expressionAt limit left, operandAt limit left, statementAt limit left⟩

/-- The operand of a unary operator with some levels of nesting left. -/
def operandAt (limit : Nat) : Nat → Reading Expr
  | 0 => tooDeep limit .unaryExpression
  | left + 1 =>
    unary ⟨expressionAt limit left, operandAt limit left, statementAt limit left⟩

end

def statementsUntilEnd (statement : Reading Stmt) : Nat → Reading (List Stmt)
  | 0 => return []
  | fuel + 1 => do
    if (← current).isFinish then return []
    else
      let s ← statement
      return s :: (← statementsUntilEnd statement fuel)

def programAt (limit : Nat) : Reading Program := do
  let start ← here
  let statements ← statementsUntilEnd (statementAt limit limit false) (← get).length
  return ⟨statements, start.merge (← here)⟩

/-- The script that a token list spells, under a nesting limit. -/
def Program.ofTokens (limit : Nat) (ts : Tokens) : Except ParseFault Program :=
  Prod.fst <$> (programAt limit).run ts

/-- Why a text is no script. -/
inductive SyntaxFault where
  | lexical (errors : List LexicalFault)
  | parse (error : ParseFault)

/-- The description of a failure: one line for each lexical error, or one for the parse. -/
def SyntaxFault.message : SyntaxFault → String
  | .lexical errors => "\n".intercalate (errors.map LexicalFault.message)
  | .parse error => error.message

def Program.ofSource (source : String) : Except SyntaxFault Program :=
  match tokenize source with
  | .error errors => .error (.lexical errors)
  | .ok ts =>
    match Program.ofTokens maxNesting ts with
    | .error e => .error (.parse e)
    | .ok p => .ok p

end ModuleLoader.Script
