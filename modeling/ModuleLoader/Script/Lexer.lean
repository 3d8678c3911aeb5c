import ModuleLoader.Number.Decimal
import ModuleLoader.Script.Escape
import ModuleLoader.Script.Token

/-!
From text to tokens. `scan` says what stands at the front of a text and how far it reaches, always
the longest match; `pieces` cuts a whole text into such pieces, so that each character belongs to
exactly one of them. The tokens and the faults of a source are read off its pieces.
-/
namespace ModuleLoader.Script

/-- What is wrong with a stretch of text that is no token. -/
inductive LexFault where
  | unexpectedCharacter (c : Char)
  | unterminatedString
  | invalidNumber (text : String)

/-- What a piece of text is. -/
inductive Lexeme where
  | gap
  | token (t : Token)
  | fault (f : LexFault)

def isGap (c : Char) : Bool :=
  c == ' ' || c == '\t' || c == '\r' || c == '\n' || c == '\x0c'

def isNameStart (c : Char) : Bool :=
  c.isAlpha || c == '_' || c == '$'

def isNamePart (c : Char) : Bool :=
  c.isAlphanum || c == '_' || c == '$'

/-- The length of a block comment after its opening: through the closing mark, or to the end. -/
def commentLength : List Char → Nat
  | [] => 0
  | '*' :: '/' :: _ => 2
  | _ :: rest => commentLength rest + 1

/-- The length of the elements of a string literal before its closing quote, and whether there is
one. An element is a backslash with any character but a newline, or a character other than the
quote, the backslash and the newline. -/
def stringBody (quote : Char) : List Char → Nat × Bool
  | [] => (0, false)
  | '\\' :: c :: rest =>
    if c = '\n' then (0, false)
    else
      let (n, closed) := stringBody quote rest
      (n + 2, closed)
  | c :: rest =>
    if c = quote then (0, true)
    else if c = '\\' ∨ c = '\n' then (0, false)
    else
      let (n, closed) := stringBody quote rest
      (n + 1, closed)

/-- The length of a fraction: a point and at least one digit. -/
def fractionLength : List Char → Nat
  | '.' :: rest =>
    let ds := rest.takeWhile Char.isDigit
    if ds.isEmpty then 0 else ds.length + 1
  | _ => 0

/-- The length of an exponent: `e`, an optional sign and at least one digit. -/
def exponentLength : List Char → Nat
  | mark :: rest =>
    if mark = 'e' ∨ mark = 'E' then
      let (sign, rest) := match rest with
        | '+' :: rest => (1, rest)
        | '-' :: rest => (1, rest)
        | rest => (0, rest)
      let ds := rest.takeWhile Char.isDigit
      if ds.isEmpty then 0 else ds.length + sign + 1
    else 0
  | [] => 0

def decimalLength (cs : List Char) : Nat :=
  let whole := (cs.takeWhile Char.isDigit).length
  let fraction := fractionLength (cs.drop whole)
  whole + fraction + exponentLength (cs.drop (whole + fraction))

/-- The digits of a hexadecimal literal, when the text after its zero begins one. -/
def hexDigits? : List Char → Option (List Char)
  | mark :: rest =>
    let ds := rest.takeWhile Text.isHexDigit
    if (mark = 'x' ∨ mark = 'X') ∧ !ds.isEmpty then some ds else none
  | [] => none

/-- A number literal: hexadecimal up to sixty-four bits, or decimal. -/
def scanNumber (c : Char) (cs : List Char) : Lexeme × Nat :=
  match if c = '0' then hexDigits? cs else none with
  | some ds =>
    let text := c :: cs.take (ds.length + 1)
    match Text.hexNumber? ds with
    | some n =>
      if n < Number.twoTo 64 then (.token (.number (Float.ofNat n)), ds.length + 1)
      else (.fault (.invalidNumber (String.ofList text)), ds.length + 1)
    | none => (.fault (.invalidNumber (String.ofList text)), ds.length + 1)
  | none =>
    let n := decimalLength cs
    let text := c :: cs.take n
    match Number.read? text with
    | some x => (.token (.number x), n)
    | none => (.fault (.invalidNumber (String.ofList text)), n)

/-- A string literal, given its opening quote. A malformed escape spoils the whole literal; without
a closing quote the fault covers the elements that were read. -/
def scanString (quote : Char) (cs : List Char) : Lexeme × Nat :=
  let (n, closed) := stringBody quote cs
  if closed then
    match unescape (cs.take n) with
    | some text => (.token (.string (String.ofList text)), n + 1)
    | none => (.fault .unterminatedString, n + 1)
  else (.fault .unterminatedString, n)

/-- The token that a word is: a reserved word or a name. -/
def wordToken (word : String) : Token :=
  match Keyword.all.find? fun k => k.text == word with
  | some k => .keyword k
  | none => .identifier word

def symbolAt? (cs : List Char) : Option Symbol :=
  Symbol.all.find? fun s => s.text.toList.isPrefixOf cs

/-- What stands at the front of the text `c :: cs`, and how many characters of `cs` belong to
it. -/
def scan (c : Char) (cs : List Char) : Lexeme × Nat :=
  if isGap c then (.gap, (cs.takeWhile isGap).length)
  else if c = '/' ∧ cs.head? = some '/' then (.gap, (cs.takeWhile (· ≠ '\n')).length)
  else if c = '/' ∧ cs.head? = some '*' then (.gap, commentLength cs.tail + 1)
  else if isNameStart c then
    let part := cs.takeWhile isNamePart
    (.token (wordToken (String.ofList (c :: part))), part.length)
  else if c.isDigit then scanNumber c cs
  else if c = '"' ∨ c = '\'' then scanString c cs
  else match symbolAt? (c :: cs) with
    | some s => (.token (.symbol s), s.text.length - 1)
    | none => (.fault (.unexpectedCharacter c), 0)

def pieces (p : Position) : List Char → List (Spanned Lexeme)
  | [] => []
  | c :: cs =>
    let (lexeme, n) := scan c cs
    let q := p.after (c :: cs.take n)
    ⟨lexeme, .between p q⟩ :: pieces q (cs.drop n)
termination_by cs => cs.length
decreasing_by simp only [List.length_drop, List.length_cons]; omega

abbrev LexicalFault := Spanned LexFault

def LexicalFault.message (e : LexicalFault) : String :=
  let place := " at " ++ toString e.span.line ++ ":" ++ toString e.span.column
  match e.value with
  | .unexpectedCharacter c => "Unexpected character '" ++ String.singleton c ++ "'" ++ place
  | .unterminatedString => "Unterminated string literal" ++ place
  | .invalidNumber text => "Invalid number '" ++ text ++ "'" ++ place

def tokensOf (ps : List (Spanned Lexeme)) : List (Spanned Token) :=
  ps.filterMap fun p => match p.value with
    | .token t => some ⟨t, p.span⟩
    | _ => none

def faultsOf (ps : List (Spanned Lexeme)) : List LexicalFault :=
  ps.filterMap fun p => match p.value with
    | .fault f => some ⟨f, p.span⟩
    | _ => none

/-- The tokens of a source, closed by `finish`; or every fault in it, if there is one. -/
def tokenize (source : String) : Except (List LexicalFault) (List (Spanned Token)) :=
  let cs := source.toList
  let ps := pieces .start cs
  let last := Position.start.after cs
  match faultsOf ps with
  | [] => .ok (tokensOf ps ++ [⟨.finish, .between last last⟩])
  | faults => .error faults

end ModuleLoader.Script
