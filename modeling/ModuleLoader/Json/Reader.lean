import ModuleLoader.Json.Basic
import ModuleLoader.Text.Hex

/-!
Reading JSON text. Arrays and objects nest at most `maxLevels` deep, a repeated key keeps its
first place and takes its last value, and each fault is reported with its line and its column in
bytes. Numbers are read by one multiplication or division of a sixty-four bit significand by a
power of ten, which is not always the nearest double.
-/
namespace ModuleLoader.Json

def maxLevels : Nat := 127

/-- What is wrong with a JSON text. -/
inductive ReadCause where
  | endInList | endInObject | endInString | endInValue
  | expectedColon | expectedListCommaOrEnd | expectedObjectCommaOrEnd
  | expectedWord | expectedValue
  | invalidEscape | invalidNumber | numberOutOfRange
  | controlCharacter | keyNotString | loneSurrogate | unexpectedEndOfEscape
  | trailingComma | trailingCharacters | tooDeep
deriving Repr, DecidableEq

def ReadCause.message : ReadCause → String
  | .endInList => "EOF while parsing a list"
  | .endInObject => "EOF while parsing an object"
  | .endInString => "EOF while parsing a string"
  | .endInValue => "EOF while parsing a value"
  | .expectedColon => "expected \x60:\x60"
  | .expectedListCommaOrEnd => "expected \x60,\x60 or \x60]\x60"
  | .expectedObjectCommaOrEnd => "expected \x60,\x60 or \x60\x7d\x60"
  | .expectedWord => "expected ident"
  | .expectedValue => "expected value"
  | .invalidEscape => "invalid escape"
  | .invalidNumber => "invalid number"
  | .numberOutOfRange => "number out of range"
  | .controlCharacter => "control character (\\u0000-\\u001F) found while parsing a string"
  | .keyNotString => "key must be a string"
  | .loneSurrogate => "lone leading surrogate in hex escape"
  | .unexpectedEndOfEscape => "unexpected end of hex escape"
  | .trailingComma => "trailing comma"
  | .trailingCharacters => "trailing characters"
  | .tooDeep => "recursion limit exceeded"

/-- A place in a JSON text: the line, and the bytes of it already read. -/
structure Mark where
  line : Nat
  column : Nat
deriving Repr, DecidableEq

def Mark.next (m : Mark) (c : Char) : Mark :=
  if c = '\n' then ⟨m.line + 1, 0⟩ else ⟨m.line, m.column + c.utf8Size⟩

def Mark.peek (m : Mark) : List Char → Mark
  | [] => m
  | c :: _ => if c = '\n' then ⟨m.line + 1, 0⟩ else ⟨m.line, m.column + 1⟩

def Mark.skip (m : Mark) : Nat → List Char → Mark
  | _, [] => m
  | bytes, c :: rest =>
    if bytes = 0 then m
    else if c.utf8Size ≤ bytes then (m.next c).skip (bytes - c.utf8Size) rest
    else ⟨m.line, m.column + bytes⟩

/-- A cause and the place where it was noticed. -/
structure ReadError where
  cause : ReadCause
  mark : Mark
deriving Repr, DecidableEq

def ReadError.message (e : ReadError) : String :=
  e.cause.message ++ " at line " ++ toString e.mark.line ++ " column " ++ toString e.mark.column

/-- What is left to read, and the place where it begins. -/
structure Input where
  rest : List Char
  mark : Mark

def Input.advance (i : Input) : Input :=
  match i.rest with
  | [] => i
  | c :: rest => ⟨rest, i.mark.next c⟩

abbrev Reader (α : Type) := Input → Except ReadError (α × Input)

def failHere (cause : ReadCause) (i : Input) : Except ReadError α :=
  .error ⟨cause, i.mark⟩

def failNext (cause : ReadCause) (i : Input) : Except ReadError α :=
  .error ⟨cause, i.mark.peek i.rest⟩

def isSpace (c : Char) : Bool :=
  c == ' ' || c == '\n' || c == '\t' || c == '\r'

def skipSpaces : List Char → Mark → Input
  | [], m => ⟨[], m⟩
  | c :: rest, m => if isSpace c then skipSpaces rest (m.next c) else ⟨c :: rest, m⟩

def Input.trimmed (i : Input) : Input :=
  skipSpaces i.rest i.mark

def word : List Char → Reader Unit
  | [], i => .ok ((), i)
  | c :: cs, i =>
    match i.rest with
    | [] => failHere .endInValue i
    | d :: _ => if d = c then word cs i.advance else failNext .expectedWord i

/-! ### Strings -/

def hexFault (rest : List Char) (m : Mark) : ReadError :=
  if (String.ofList rest).utf8ByteSize < 4 then
    ⟨.endInString, rest.foldl Mark.next m⟩
  else ⟨.invalidEscape, m.skip 4 rest⟩

/-- The value of four hexadecimal digits, and what follows them. -/
def fourDigits (rest : List Char) (m : Mark) : Except ReadError (Nat × Input) :=
  match rest with
  | a :: b :: c :: d :: more =>
    match Text.hexNumber? [a, b, c, d] with
    | some n => .ok (n, ⟨more, (((m.next a).next b).next c).next d⟩)
    | none => .error (hexFault rest m)
  | _ => .error (hexFault rest m)

def charOf (code : Nat) : Char :=
  Char.ofNat code

def secondHalf (high : Nat) (i : Input) : Except ReadError (Char × Input) :=
  match i.rest with
  | [] => failHere .endInString i
  | '\\' :: _ =>
    let i := i.advance
    match i.rest with
    | [] => failHere .endInString i
    | 'u' :: _ =>
      let i := i.advance
      match fourDigits i.rest i.mark with
      | .error e => .error e
      | .ok (low, i) =>
        if low < 0xdc00 ∨ 0xdfff < low then failHere .loneSurrogate i
        else .ok (charOf ((high - 0xd800) * 0x400 + (low - 0xdc00) + 0x10000), i)
    | _ => failNext .unexpectedEndOfEscape i
  | _ => failNext .unexpectedEndOfEscape i

/-- The character of a `\u` escape, read after the `u`. -/
def unicodeEscape (i : Input) : Except ReadError (Char × Input) :=
  match fourDigits i.rest i.mark with
  | .error e => .error e
  | .ok (code, i) =>
    if 0xdc00 ≤ code ∧ code ≤ 0xdfff then failHere .loneSurrogate i
    else if 0xd800 ≤ code ∧ code ≤ 0xdbff then secondHalf code i
    else .ok (charOf code, i)

def letterEscape? : Char → Option Char
  | '"' => some '"'
  | '\\' => some '\\'
  | '/' => some '/'
  | 'b' => some '\x08'
  | 'f' => some '\x0c'
  | 'n' => some '\n'
  | 'r' => some '\r'
  | 't' => some '\t'
  | _ => none

def escape (i : Input) : Except ReadError (Char × Input) :=
  match i.rest with
  | [] => failHere .endInString i
  | 'u' :: _ => unicodeEscape i.advance
  | c :: _ =>
    match letterEscape? c with
    | some d => .ok (d, i.advance)
    | none => failNext .invalidEscape i

/-- The rest of a string, read after its opening quote, in front of which `done` was read (last
character first). Each step takes at least one character, so `fuel` may be the length. -/
def stringRest : Nat → List Char → Reader String
  | 0, _, i => failHere .endInString i
  | fuel + 1, done, i =>
    match i.rest with
    | [] => failHere .endInString i
    | '"' :: _ => .ok (String.ofList done.reverse, i.advance)
    | '\\' :: _ =>
      match escape i.advance with
      | .error e => .error e
      | .ok (c, i) => stringRest fuel (c :: done) i
    | c :: _ =>
      if c.toNat < 0x20 then failHere .controlCharacter i.advance
      else stringRest fuel (c :: done) i.advance

def readString : Reader String := fun i =>
  stringRest (i.rest.length + 1) [] i

/-! ### Numbers -/

def wordBound : Nat := Number.twoTo 64

/-- Digits are taken into the significand as long as it fits in sixty-four bits. -/
def takeDigits : Nat → List Char → Nat × Nat × List Char
  | n, [] => (n, 0, [])
  | n, c :: rest =>
    if c.isDigit ∧ 10 * n + (c.toNat - '0'.toNat) < wordBound then
      let (m, count, after) := takeDigits (10 * n + (c.toNat - '0'.toNat)) rest
      (m, count + 1, after)
    else (n, 0, c :: rest)

/-- Divides by ten to a power beyond the largest there is, in steps. -/
def divideDown : Nat → Float → Nat → Float
  | 0, x, _ => x
  | fuel + 1, x, power =>
    if power ≤ 308 then x / Float.ofScientific 1 false power
    else if x == 0.0 then x
    else divideDown fuel (x / Float.ofScientific 1 false 308) (power - 308)

/-- The double for `significand * 10 ^ exponent`, by one multiplication or division where the power
of ten is a double; none if it is infinite. -/
def scaled? (significand : Nat) (exponent : Int) : Option Float :=
  let x := Float.ofNat significand
  if exponent < 0 then some (divideDown 10 x exponent.natAbs)
  else if 308 < exponent then if significand = 0 then some x else none
  else
    let y := x * Float.ofScientific 1 false exponent.toNat
    if y.toBits = 0x7ff0000000000000 then none else some y

def signed (negative : Bool) (x : Float) : JsonNumber :=
  .float (if negative then -x else x)

/-- Moves the input over some characters, which hold no newline. -/
def Input.drop (i : Input) (count : Nat) : Input :=
  ⟨i.rest.drop count, ⟨i.mark.line, i.mark.column + count⟩⟩

def digitRun (cs : List Char) : Nat :=
  (cs.takeWhile Char.isDigit).length

/-- Finishes a number whose significand and power of ten are known. -/
def finish (negative : Bool) (significand : Nat) (exponent : Int) : Reader JsonNumber := fun i =>
  match scaled? significand exponent with
  | some x => .ok (signed negative x, i)
  | none => failHere .numberOutOfRange i

def exponentBound : Nat := Number.twoTo 31

/-- Reads exponent digits until the next would pass `exponentBound`; says how many were read and
whether they were all. -/
def takeExponent : Nat → List Char → Nat × Nat × Bool
  | n, [] => (n, 0, true)
  | n, c :: rest =>
    if c.isDigit then
      if 10 * n + (c.toNat - '0'.toNat) < exponentBound then
        let (m, count, whole) := takeExponent (10 * n + (c.toNat - '0'.toNat)) rest
        (m, count + 1, whole)
      else (n, 1, false)
    else (n, 0, true)

def exponentPart (negative : Bool) (significand : Nat) (start : Int) : Reader JsonNumber := fun i =>
  let i := i.drop 1
  let (down, i) := match i.rest with
    | '+' :: _ => (false, i.drop 1)
    | '-' :: _ => (true, i.drop 1)
    | _ => (false, i)
  match i.rest with
  | [] => failHere .endInValue i
  | c :: _ =>
    if !c.isDigit then failNext .invalidNumber i
    else
      let (n, count, whole) := takeExponent 0 i.rest
      let i := i.drop count
      if whole then finish negative significand (if down then start - n else start + n) i
      else if significand ≠ 0 ∧ !down then failHere .numberOutOfRange i
      else .ok (signed negative 0.0, i.drop (digitRun i.rest))

def atExponent (cs : List Char) : Bool :=
  cs.head? = some 'e' || cs.head? = some 'E'

def exponentOrEnd (negative : Bool) (significand : Nat) (exponent : Int) : Reader JsonNumber :=
  fun i =>
    if atExponent i.rest then exponentPart negative significand exponent i
    else finish negative significand exponent i

/-- A fraction, read at its point. Digits beyond the significand's width are passed over. -/
def fractionPart (negative : Bool) (significand : Nat) (start : Int) : Reader JsonNumber := fun i =>
  let i := i.drop 1
  let (n, count, after) := takeDigits significand i.rest
  let i := i.drop count
  match after with
  | c :: _ =>
    if c.isDigit then exponentOrEnd negative n (start - count) (i.drop (digitRun i.rest))
    else if count = 0 then failNext .invalidNumber i
    else exponentOrEnd negative n (start - count) i
  | [] =>
    if count = 0 then failNext .endInValue i
    else exponentOrEnd negative n (start - count) i

/-- What follows the integer digits. A plain integer stays exact, except for a negative zero and
for negative ones that do not fit in sixty-four bits. -/
def numberTail (negative : Bool) (significand : Nat) : Reader JsonNumber := fun i =>
  match i.rest with
  | '.' :: _ => fractionPart negative significand 0 i
  | _ =>
    if atExponent i.rest then exponentPart negative significand 0 i
    else if !negative then .ok (.integer significand, i)
    else if significand = 0 ∨ Number.twoTo 63 < significand then
      .ok (.float (-(Float.ofNat significand)), i)
    else .ok (.integer (-significand), i)

def readNumber (negative : Bool) : Reader JsonNumber := fun i =>
  match i.rest with
  | [] => failHere .endInValue i
  | '0' :: rest =>
    if (rest.head?.any Char.isDigit) then failNext .invalidNumber i.advance
    else numberTail negative 0 i.advance
  | c :: _ =>
    if !c.isDigit then failNext .invalidNumber i
    else
      let (n, count, after) := takeDigits 0 i.rest
      let i := i.drop count
      if after.head?.any Char.isDigit then
        let extra := digitRun after
        let i := i.drop extra
        if i.rest.head? = some '.' then fractionPart negative n extra i
        else exponentOrEnd negative n extra i
      else numberTail negative n i

/-! ### Values -/

/-- The items of an array after its opening bracket, in front of which `done` was read (last item
first). -/
def itemsRest (item : Reader Json) : Nat → Bool → List Json → Reader (List Json)
  | 0, _, _, i => failHere .endInList i
  | fuel + 1, first, done, i =>
    let i := i.trimmed
    match i.rest with
    | [] => failNext .endInList i
    | ']' :: _ => .ok (done.reverse, i.advance)
    | c :: _ =>
      if first then
        match item i with
        | .error e => .error e
        | .ok (x, i) => itemsRest item fuel false (x :: done) i
      else if c = ',' then
        let i := i.advance.trimmed
        match i.rest with
        | [] => failNext .endInValue i
        | ']' :: _ => failNext .trailingComma i
        | _ =>
          match item i with
          | .error e => .error e
          | .ok (x, i) => itemsRest item fuel false (x :: done) i
      else failNext .expectedListCommaOrEnd i

/-- A member of an object, read at the opening quote of its key. -/
def field (item : Reader Json) : Reader (String × Json) := fun i =>
  match readString i.advance with
  | .error e => .error e
  | .ok (key, i) =>
    let i := i.trimmed
    match i.rest with
    | [] => failNext .endInObject i
    | ':' :: _ =>
      match item i.advance.trimmed with
      | .error e => .error e
      | .ok (value, i) => .ok ((key, value), i)
    | _ => failNext .expectedColon i

/-- The members of an object after its opening brace, in addition to those read before. -/
def fieldsRest (item : Reader Json) : Nat → Bool → Dict Json → Reader (Dict Json)
  | 0, _, _, i => failHere .endInObject i
  | fuel + 1, first, done, i =>
    let i := i.trimmed
    match i.rest with
    | [] => failNext .endInObject i
    | '\x7d' :: _ => .ok (done, i.advance)
    | c :: _ =>
      if first then
        if c = '"' then
          match field item i with
          | .error e => .error e
          | .ok ((key, value), i) => fieldsRest item fuel false (done.insert key value) i
        else failNext .keyNotString i
      else if c = ',' then
        let i := i.advance.trimmed
        match i.rest with
        | [] => failNext .endInValue i
        | '"' :: _ =>
          match field item i with
          | .error e => .error e
          | .ok ((key, value), i) => fieldsRest item fuel false (done.insert key value) i
        | '\x7d' :: _ => failNext .trailingComma i
        | _ => failNext .keyNotString i
      else failNext .expectedObjectCommaOrEnd i

/-- A value with at most `levels` containers around any part of it. -/
def readValue (levels : Nat) : Reader Json := fun i =>
  let i := i.trimmed
  match i.rest with
  | [] => failNext .endInValue i
  | 'n' :: _ => (word "ull".toList i.advance).map fun (_, i) => (.null, i)
  | 't' :: _ => (word "rue".toList i.advance).map fun (_, i) => (.bool true, i)
  | 'f' :: _ => (word "alse".toList i.advance).map fun (_, i) => (.bool false, i)
  | '"' :: _ => (readString i.advance).map fun (s, i) => (.string s, i)
  | '-' :: _ => (readNumber true i.advance).map fun (n, i) => (.number n, i)
  | '[' :: rest =>
    match levels with
    | 0 => failNext .tooDeep i
    | levels + 1 =>
      (itemsRest (readValue levels) (rest.length + 1) true [] i.advance).map
        fun (xs, i) => (.array xs, i)
  | '\x7b' :: rest =>
    match levels with
    | 0 => failNext .tooDeep i
    | levels + 1 =>
      (fieldsRest (readValue levels) (rest.length + 1) true [] i.advance).map
        fun (d, i) => (.object d, i)
  | c :: _ =>
    if c.isDigit then (readNumber false i).map fun (n, i) => (.number n, i)
    else failNext .expectedValue i

def read (text : String) : Except ReadError Json :=
  match readValue maxLevels ⟨text.toList, ⟨1, 0⟩⟩ with
  | .error e => .error e
  | .ok (j, i) =>
    let i := i.trimmed
    if i.rest.isEmpty then .ok j else failNext .trailingCharacters i

end ModuleLoader.Json
