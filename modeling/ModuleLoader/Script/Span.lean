/-!
Places in a source text. Offsets count bytes of the UTF-8 form; lines and columns count from one,
columns in characters, and only a newline starts a new line.
-/
namespace ModuleLoader.Script

/-- A place between two characters. Lines and columns are counted without a bound: a source with
`2 ^ 32` lines or more, or with so many characters in a line, is left out. -/
structure Position where
  offset : Nat
  line : Nat
  column : Nat
deriving Repr, DecidableEq

def Position.start : Position :=
  ⟨0, 1, 1⟩

def Position.next (p : Position) (c : Char) : Position :=
  if c = '\n' then ⟨p.offset + c.utf8Size, p.line + 1, 1⟩
  else ⟨p.offset + c.utf8Size, p.line, p.column + 1⟩

def Position.after (p : Position) (text : List Char) : Position :=
  text.foldl Position.next p

@[simp] theorem Position.after_nil (p : Position) : p.after [] = p := rfl

@[simp] theorem Position.after_cons (p : Position) (c : Char) (text : List Char) :
    p.after (c :: text) = (p.next c).after text := rfl

theorem Position.after_append (p : Position) (s t : List Char) :
    p.after (s ++ t) = (p.after s).after t := by
  simp [Position.after]

/-- A stretch of source: its byte offsets, and the line and column of its start. -/
structure Span where
  start : Nat
  stop : Nat
  line : Nat
  column : Nat
deriving Repr, DecidableEq, Inhabited

def Span.between (p q : Position) : Span :=
  ⟨p.offset, q.offset, p.line, p.column⟩

def Span.length (s : Span) : Nat :=
  s.stop - s.start

def Span.isEmpty (s : Span) : Bool :=
  s.start == s.stop

/-- The start of `s` is on an earlier line than that of `t`, or on the same line and no further
right. -/
def Span.startsNoLater (s t : Span) : Bool :=
  s.line < t.line || (s.line == t.line && s.column ≤ t.column)

def Span.merge (s t : Span) : Span :=
  let first := if s.startsNoLater t then s else t
  ⟨min s.start t.start, max s.stop t.stop, first.line, first.column⟩

/-- The characters of a text that begin at an offset inside the stretch; `offset` is where the
text begins. -/
def Span.sliceFrom (s : Span) : Nat → List Char → List Char
  | _, [] => []
  | offset, c :: rest =>
    let tail := s.sliceFrom (offset + c.utf8Size) rest
    if s.start ≤ offset && offset < s.stop then c :: tail else tail

def Span.slice (s : Span) (source : String) : String :=
  String.ofList (s.sliceFrom 0 source.toList)

/-- Something with the stretch of source it was read from. -/
structure Spanned (α : Type) where
  value : α
  span : Span
deriving Repr, DecidableEq

end ModuleLoader.Script
