import ModuleLoader.Text.Hex

/-!
Escapes in string literals. A backslash and the character after it stand for one character; `\x`
and `\u` take two and four more characters that spell its code.
-/
namespace ModuleLoader.Script

/-- The number spelled by the characters of an escape. The first of them may be a plus sign. -/
def escapeNumber? : List Char → Option Nat
  | '+' :: ds => Text.hexNumber? ds
  | ds => Text.hexNumber? ds

def charOfCode? (code : Nat) : Option Char :=
  if h : code.isValidChar then some (Char.ofNatAux code h) else none

/-- The character that a `\x` or `\u` escape with these characters stands for. -/
def escapeChar? (ds : List Char) : Option Char :=
  (escapeNumber? ds).bind charOfCode?

/-- The character that a backslash and this character stand for. -/
def shortEscape : Char → Char
  | 'n' => '\n'
  | 'r' => '\r'
  | 't' => '\t'
  | '0' => '\x00'
  | 'b' => '\x08'
  | 'f' => '\x0c'
  | 'v' => '\x0b'
  | c => c

/-- The text that the body of a string literal stands for; none if an escape is malformed. -/
def unescape : List Char → Option (List Char)
  | [] => some []
  | '\\' :: 'x' :: a :: b :: rest => do return (← escapeChar? [a, b]) :: (← unescape rest)
  | '\\' :: 'x' :: _ => none
  | '\\' :: 'u' :: a :: b :: c :: d :: rest => do
    return (← escapeChar? [a, b, c, d]) :: (← unescape rest)
  | '\\' :: 'u' :: _ => none
  | ['\\'] => none
  | '\\' :: c :: rest => (unescape rest).map (shortEscape c :: ·)
  | c :: rest => (unescape rest).map (c :: ·)

end ModuleLoader.Script
