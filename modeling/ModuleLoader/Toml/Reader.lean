import ModuleLoader.Number.Decimal
import ModuleLoader.Number.Power
import ModuleLoader.Text.Hex
import ModuleLoader.Toml.Tables

/-!
Reading TOML 1.0. A text is a document or it is not: faults carry no description. Arrays, inline
tables and dotted keys nest less than eighty deep.
-/
namespace ModuleLoader.Toml

/-- A step of reading: what was read, and the text after it. -/
abbrev Reader (α : Type) := StateT (List Char) Option α

/-- Arrays, inline tables and dotted keys nest less than this deep. -/
def nestingBound : Nat := 80

def refuse {α : Type} : Reader α := fun _ => none

def peek : Reader (Option Char) := do
  return (← get).head?

def expect (c : Char) : Reader Unit := do
  match ← get with
  | d :: rest => if d = c then set rest else refuse
  | [] => refuse

/-- Consumes a text if it comes next; says whether it did. -/
def skip (text : String) : Reader Bool := do
  let cs ← get
  if text.toList.isPrefixOf cs then
    set (cs.drop text.length)
    return true
  else return false

def isSpace (c : Char) : Bool :=
  c == ' ' || c == '\t'

def spaces : Reader Unit :=
  modify fun cs => cs.dropWhile isSpace

def inComment (c : Char) : Bool :=
  c == '\t' || (0x20 ≤ c.toNat && c.toNat ≠ 0x7f)

def comment : Reader Unit :=
  modify fun cs => match cs with
    | '#' :: rest => rest.dropWhile inComment
    | cs => cs

/-- Consumes the end of a line if it comes next; says whether it did. -/
def newline : Reader Bool := do
  match ← get with
  | '\n' :: rest =>
    set rest
    return true
  | '\r' :: '\n' :: rest =>
    set rest
    return true
  | _ => return false

/-- Consumes what may follow on a line, and the end of the line or of the text. -/
def lineEnd : Reader Unit := do
  spaces
  comment
  if (← get).isEmpty || (← newline) then return ()
  else refuse

/-- Consumes spaces, comments and ends of lines; each turn consumes at least one character. -/
def gapsWith : Nat → Reader Unit
  | 0 => return ()
  | fuel + 1 => do
    spaces
    comment
    if ← newline then gapsWith fuel
    else return ()

def gaps : Reader Unit := do
  gapsWith ((← get).length + 1)

/-! ### Strings -/

def inString (c : Char) : Bool :=
  c == '\t' || (0x20 ≤ c.toNat && c.toNat ≠ 0x7f)

def coded (count : Nat) : Reader Char := do
  let cs ← get
  let ds := cs.take count
  if ds.length < count then refuse
  else
    match Text.hexNumber? ds with
    | none => refuse
    | some code =>
      if h : code.isValidChar then
        set (cs.drop count)
        return Char.ofNatAux code h
      else refuse

def escape : Reader Char := do
  match ← get with
  | [] => refuse
  | c :: rest =>
    set rest
    match c with
    | 'b' => return '\x08'
    | 't' => return '\t'
    | 'n' => return '\n'
    | 'f' => return '\x0c'
    | 'r' => return '\r'
    | '"' => return '"'
    | '\\' => return '\\'
    | 'u' => coded 4
    | 'U' => coded 8
    | _ => refuse

/-- The rest of a string in double quotes; each turn consumes a character. -/
def basicRest : Nat → List Char → Reader String
  | 0, _ => refuse
  | fuel + 1, done => do
    match ← get with
    | [] => refuse
    | c :: rest =>
      set rest
      if c = '"' then return String.ofList done.reverse
      else if c = '\\' then basicRest fuel ((← escape) :: done)
      else if inString c then basicRest fuel (c :: done)
      else refuse

def literalRest : Reader String := do
  let cs ← get
  let text := cs.takeWhile fun c => inString c && c ≠ '\''
  match cs.drop text.length with
  | '\'' :: rest =>
    set rest
    return String.ofList text
  | _ => refuse

/-- The end of a string of several lines: three quotes, and up to two more that belong to the
text. -/
def closing (quote : Char) : Reader (Option (List Char)) := do
  let cs ← get
  let run := (cs.takeWhile (· = quote)).length
  if run < 3 then return none
  else
    let inside := min (run - 3) 2
    set (cs.drop (inside + 3))
    return some (List.replicate inside quote)

def dropBlankLines : List Char → List Char
  | '\n' :: rest => dropBlankLines rest
  | '\r' :: '\n' :: rest => dropBlankLines rest
  | c :: rest => if isSpace c then dropBlankLines rest else c :: rest
  | [] => []

def endsLine (cs : List Char) : Bool :=
  match cs.dropWhile isSpace with
  | '\n' :: _ => true
  | '\r' :: '\n' :: _ => true
  | _ => false

/-- The rest of a string of several lines; each turn consumes a character. -/
def blockRest (quote : Char) (escapes : Bool) : Nat → List Char → Reader String
  | 0, _ => refuse
  | fuel + 1, done => do
    match ← closing quote with
    | some inside => return String.ofList (done.reverse ++ inside)
    | none =>
      if ← newline then blockRest quote escapes fuel ('\n' :: done)
      else
        match ← get with
        | [] => refuse
        | c :: rest =>
          set rest
          if escapes && c = '\\' then
            if endsLine rest then
              set (dropBlankLines rest)
              blockRest quote escapes fuel done
            else blockRest quote escapes fuel ((← escape) :: done)
          else if inString c then blockRest quote escapes fuel (c :: done)
          else refuse

/-- A string of several lines, after its opening quotes; an end of line at once does not count. -/
def block (quote : Char) (escapes : Bool) : Reader String := do
  let _ ← newline
  blockRest quote escapes ((← get).length + 1) []

def lineString : Reader String := do
  if ← skip "\"" then basicRest ((← get).length + 1) []
  else
    expect '\''
    literalRest

def readString : Reader String := do
  if ← skip "\"\"\"" then block '"' true
  else if ← skip "'''" then block '\'' false
  else lineString

/-! ### Keys -/

def inBareKey (c : Char) : Bool :=
  c.isAlphanum || c == '-' || c == '_'

def keyPart : Reader String := do
  match ← peek with
  | some '"' => lineString
  | some '\'' => lineString
  | _ =>
    let cs ← get
    let word := cs.takeWhile inBareKey
    if word.isEmpty then refuse
    else
      set (cs.drop word.length)
      return String.ofList word

/-- The parts of a key that are left, with the points between them. -/
def keyParts : Nat → Reader (List String)
  | 0 => refuse
  | fuel + 1 => do
    spaces
    let part ← keyPart
    spaces
    if ← skip "." then return part :: (← keyParts fuel)
    else return [part]

/-- A key: the parts before the last, and the last. -/
def key : Reader (List String × String) := do
  let parts ← keyParts nestingBound
  match parts.reverse with
  | [] => refuse
  | last :: before =>
    if parts.length < nestingBound then return (before.reverse, last) else refuse

/-! ### Numbers and dates -/

/-- Digits with single underscores between them, after a first digit. -/
def moreDigits (isDigit : Char → Bool) : List Char → Option (List Char × List Char)
  | [] => some ([], [])
  | ['_'] => none
  | '_' :: c :: rest =>
    if isDigit c then (moreDigits isDigit rest).map fun (ds, r) => (c :: ds, r) else none
  | c :: rest =>
    if isDigit c then (moreDigits isDigit rest).map fun (ds, r) => (c :: ds, r)
    else some ([], c :: rest)

def digits (isDigit : Char → Bool) : Reader (List Char) := do
  match ← get with
  | c :: rest =>
    if isDigit c then
      match moreDigits isDigit rest with
      | some (ds, rest) =>
        set rest
        return c :: ds
      | none => refuse
    else refuse
  | [] => refuse

/-- A sign, if there is one; says whether it is a minus. -/
def sign : Reader Bool := do
  if ← skip "-" then return true
  else
    let _ ← skip "+"
    return false

/-- A decimal integer without sign: no zero in front of other digits. -/
def decimal : Reader (List Char) := do
  match ← get with
  | '0' :: rest =>
    set rest
    return ['0']
  | _ => digits Char.isDigit

def exponent : Reader (Option (List Char)) := do
  if (← skip "e") || (← skip "E") then
    let negative ← sign
    let ds ← digits Char.isDigit
    return some ((if negative then ['e', '-'] else ['e']) ++ ds)
  else return none

def fraction : Reader (Option (List Char)) := do
  if ← skip "." then return some ('.' :: (← digits Char.isDigit))
  else return none

/-- A float written in digits. A positive one has to be within the range of doubles; a negative one
beyond it is infinite. -/
def finiteFloat (negative : Bool) (text : List Char) : Reader Toml := do
  match Number.read? text with
  | none => refuse
  | some x =>
    if negative then return .float (-x)
    else if x.toBits = 0x7ff0000000000000 then refuse
    else return .float x

def boundedInteger (i : Int) : Reader Toml :=
  if -(Number.twoTo 63 : Int) ≤ i ∧ i < Number.twoTo 63 then return .integer i else refuse

def radixInteger (base : Nat) (ds : List Char) : Reader Toml :=
  boundedInteger (ds.foldl (fun n c => base * n + (Text.hexValue? c).getD 0) 0)

def number : Reader Toml := do
  if ← skip "0x" then radixInteger 16 (← digits Text.isHexDigit)
  else if ← skip "0o" then radixInteger 8 (← digits fun c => '0' ≤ c && c ≤ '7')
  else if ← skip "0b" then radixInteger 2 (← digits fun c => c == '0' || c == '1')
  else
    let negative ← sign
    if ← skip "inf" then
      return .float (Float.ofBits (if negative then 0xfff0000000000000 else 0x7ff0000000000000))
    else if ← skip "nan" then return .float (Float.ofBits 0x7ff8000000000000)
    else
      let whole ← decimal
      let frac ← fraction
      let power ← exponent
      match frac, power with
      | none, none =>
        let n := Number.ofDigits whole
        boundedInteger (if negative then -(n : Int) else n)
      | _, _ => finiteFloat negative (whole ++ frac.getD [] ++ power.getD [])

def fixedDigits (count low high : Nat) : Reader Nat := do
  let cs ← get
  let ds := cs.take count
  let n := Number.ofDigits ds
  if ds.length = count && ds.all Char.isDigit && low ≤ n && n ≤ high then
    set (cs.drop count)
    return n
  else refuse

def daysIn (year month : Nat) : Nat :=
  if month = 2 then
    if year % 4 = 0 ∧ (year % 100 ≠ 0 ∨ year % 400 = 0) then 29 else 28
  else if month = 4 ∨ month = 6 ∨ month = 9 ∨ month = 11 then 30
  else 31

def timeRest : Reader Unit := do
  let _ ← fixedDigits 2 0 59
  expect ':'
  let _ ← fixedDigits 2 0 60
  if ← skip "." then
    let cs ← get
    let rest := cs.dropWhile Char.isDigit
    if rest.length < cs.length then set rest else refuse

def offset : Reader Unit := do
  if (← skip "Z") || (← skip "z") then return ()
  else if (← skip "+") || (← skip "-") then
    let _ ← fixedDigits 2 0 23
    expect ':'
    let _ ← fixedDigits 2 0 59

def startsTime : List Char → Bool
  | a :: b :: ':' :: _ => a.isDigit && b.isDigit && Number.ofDigits [a, b] ≤ 23
  | _ => false

def startsDate : List Char → Bool
  | a :: b :: c :: d :: '-' :: _ => a.isDigit && b.isDigit && c.isDigit && d.isDigit
  | _ => false

def time : Reader Unit := do
  modify fun cs => cs.drop 3
  timeRest

def date : Reader Unit := do
  let year ← fixedDigits 4 0 9999
  expect '-'
  let month ← fixedDigits 2 1 12
  expect '-'
  let _ ← fixedDigits 2 1 (daysIn year month)
  match ← get with
  | c :: rest =>
    if (c = 'T' ∨ c = 't' ∨ c = ' ') ∧ startsTime rest then
      set rest
      time
      offset
  | [] => return ()

/-! ### Values -/

/-- Items of an array up to its closing bracket; each turn consumes a character. -/
def itemsRest (value : Reader Toml) : Nat → Reader (List Toml)
  | 0 => refuse
  | fuel + 1 => do
    gaps
    if ← skip "]" then return []
    else
      let item ← value
      gaps
      if ← skip "," then return item :: (← itemsRest value fuel)
      else
        expect ']'
        return [item]

def keyValue (value : Reader Toml) : Reader ((List String × String) × Toml) := do
  let k ← key
  expect '='
  spaces
  return (k, ← value)

/-- Members of an inline table up to its closing brace. No comma may follow the last. -/
def membersRest (value : Reader Toml) : Nat → Entries → Reader Entries
  | 0, _ => refuse
  | fuel + 1, done => do
    let ((path, k), v) ← keyValue value
    spaces
    match done.insert k v path with
    | none => refuse
    | some done =>
      if ← skip "," then membersRest value fuel done
      else
        expect '\x7d'
        return done

def inlineTable (value : Reader Toml) : Reader Toml := do
  spaces
  if ← skip "\x7d" then return .table []
  else return .table (finishEntries (← membersRest value ((← get).length + 1) []))

/-- A value; `left` more containers may be entered. -/
def readValue (left : Nat) : Reader Toml := do
  let cs ← get
  match cs with
  | '"' :: _ => return .string (← readString)
  | '\'' :: _ => return .string (← readString)
  | '[' :: rest =>
    set rest
    match left with
    | 0 => refuse
    | left + 1 => return .array (← itemsRest (readValue left) (rest.length + 1))
  | '\x7b' :: rest =>
    set rest
    match left with
    | 0 => refuse
    | left + 1 => inlineTable (readValue left)
  | 't' :: _ => if ← skip "true" then return .boolean true else refuse
  | 'f' :: _ => if ← skip "false" then return .boolean false else refuse
  | _ =>
    if startsDate cs then
      date
      return .datetime
    else if startsTime cs then
      time
      return .datetime
    else number

/-! ### Documents -/

/-- A document under construction: all tables, and the path of the one that is open. -/
structure Draft where
  root : Entries
  path : List String

def header (d : Draft) : Reader Draft := do
  let item ← skip "[["
  if !item then expect '['
  let (before, last) ← key
  if ← skip (if item then "]]" else "]") then
    lineEnd
    match d.root.modify (if item then Entries.openItem last else Entries.openTable last) before with
    | some root => return ⟨root, before ++ [last]⟩
    | none => refuse
  else refuse

def keyLine (d : Draft) : Reader Draft := do
  let ((path, k), v) ← keyValue (readValue (nestingBound - 1))
  lineEnd
  match d.root.modify (fun entries => entries.insert k v path) d.path with
  | some root => return { d with root }
  | none => refuse

/-- The lines of a document; each consumes at least one character. -/
def lines : Nat → Draft → Reader Draft
  | 0, d => return d
  | fuel + 1, d => do
    gaps
    match ← peek with
    | none => return d
    | some '[' => lines fuel (← header d)
    | some _ => lines fuel (← keyLine d)

/-- The fields of the document that a text spells; a mark of the byte order may stand in front. -/
def document? (text : String) : Option (List (String × Toml)) :=
  let cs := match text.toList with
    | '\ufeff' :: cs => cs
    | cs => cs
  match (lines (cs.length + 1) ⟨[], []⟩).run cs with
  | some (d, []) => some (finishEntries d.root)
  | _ => none

end ModuleLoader.Toml
