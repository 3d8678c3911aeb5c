import ModuleLoader.Number.Layout
import ModuleLoader.Script.Span
import ModuleLoader.Text.Quoted

/-!
The tokens of the script language: names, literals, keywords and symbols. Each keyword and symbol
has one spelling; how a token is named in a diagnostic depends on its class.
-/
namespace ModuleLoader.Script

/-- The reserved words. `new` is reserved without a use. -/
inductive Keyword where
  | «let» | «const» | «var» | function | «if» | «else» | «while» | «for» | «break» | «continue»
  | «return» | «throw» | «try» | «catch» | «finally» | typeof | this | true | false | null | new
deriving Repr, DecidableEq

def Keyword.all : List Keyword :=
  [.«let», .«const», .«var», .function, .«if», .«else», .«while», .«for», .«break», .«continue»,
    .«return», .«throw», .«try», .«catch», .«finally», .typeof, .this, .true, .false, .null, .new]

def Keyword.text : Keyword → String
  | .«let» => "let"
  | .«const» => "const"
  | .«var» => "var"
  | .function => "function"
  | .«if» => "if"
  | .«else» => "else"
  | .«while» => "while"
  | .«for» => "for"
  | .«break» => "break"
  | .«continue» => "continue"
  | .«return» => "return"
  | .«throw» => "throw"
  | .«try» => "try"
  | .«catch» => "catch"
  | .«finally» => "finally"
  | .typeof => "typeof"
  | .this => "this"
  | .true => "true"
  | .false => "false"
  | .null => "null"
  | .new => "new"

/-- The operators and punctuation marks. -/
inductive Symbol where
  | strictEqual | strictNotEqual | equal | notEqual | lessEqual | greaterEqual
  | and | or | coalesce | increment | decrement
  | plusAssign | minusAssign | timesAssign | divideAssign | remainderAssign
  | plus | minus | times | divide | remainder | not | less | greater | assign
  | question | colon | dot | comma | semicolon
  | leftParen | rightParen | leftBrace | rightBrace | leftBracket | rightBracket
deriving Repr, DecidableEq

/-- All symbols, longer spellings first, so that the first one that fits is the longest. -/
def Symbol.all : List Symbol :=
  [.strictEqual, .strictNotEqual, .equal, .notEqual, .lessEqual, .greaterEqual, .and, .or,
    .coalesce, .increment, .decrement, .plusAssign, .minusAssign, .timesAssign, .divideAssign,
    .remainderAssign, .plus, .minus, .times, .divide, .remainder, .not, .less, .greater, .assign,
    .question, .colon, .dot, .comma, .semicolon, .leftParen, .rightParen, .leftBrace, .rightBrace,
    .leftBracket, .rightBracket]

def Symbol.text : Symbol → String
  | .strictEqual => "==="
  | .strictNotEqual => "!=="
  | .equal => "=="
  | .notEqual => "!="
  | .lessEqual => "<="
  | .greaterEqual => ">="
  | .and => "&&"
  | .or => "||"
  | .coalesce => "??"
  | .increment => "++"
  | .decrement => "--"
  | .plusAssign => "+="
  | .minusAssign => "-="
  | .timesAssign => "*="
  | .divideAssign => "/="
  | .remainderAssign => "%="
  | .plus => "+"
  | .minus => "-"
  | .times => "*"
  | .divide => "/"
  | .remainder => "%"
  | .not => "!"
  | .less => "<"
  | .greater => ">"
  | .assign => "="
  | .question => "?"
  | .colon => ":"
  | .dot => "."
  | .comma => ","
  | .semicolon => ";"
  | .leftParen => "("
  | .rightParen => ")"
  | .leftBrace => "\x7b"
  | .rightBrace => "\x7d"
  | .leftBracket => "["
  | .rightBracket => "]"

/-- A token. `finish` stands at the end of every token list and nowhere else. -/
inductive Token where
  | identifier (name : String)
  | number (value : Float)
  | string (text : String)
  | keyword (word : Keyword)
  | symbol (mark : Symbol)
  | finish

/-- How a token is named in a diagnostic: symbols stand in quotes, words do not. -/
def Token.describe : Token → String
  | .identifier name => "identifier '" ++ name ++ "'"
  | .number value => "number " ++ Number.tokenText value
  | .string text => "string " ++ Text.quoted text
  | .keyword word => word.text
  | .symbol mark => "'" ++ mark.text ++ "'"
  | .finish => "end of input"

def Token.isSymbol (token : Token) (mark : Symbol) : Bool :=
  match token with
  | .symbol other => other == mark
  | _ => false

def Token.isKeyword (token : Token) (word : Keyword) : Bool :=
  match token with
  | .keyword other => other == word
  | _ => false

def Token.isFinish : Token → Bool
  | .finish => true
  | _ => false

/-- The name that a token gives a property: identifiers and all reserved words are names there. -/
def Token.asName? : Token → Option String
  | .identifier name => some name
  | .keyword word => some word.text
  | _ => none

end ModuleLoader.Script
