import ModuleLoader.Script.Tree.Statement

/-! Token lists read in place. A cursor stands at one of the tokens and counts, as it goes, how deep
constructs nest around it and how many loops surround it; a walk moves the cursor. Unlike a reading,
a walk may never end, and it may lose its way behind the last token. -/
namespace ModuleLoader.Script

/-- A place in a token list, with what is counted on the way there. -/
structure Cursor where
  tokens : Tokens
  position : Nat
  /-- The constructs that nest around the place. -/
  depth : Nat
  /-- The loops around the place in its function. -/
  loops : Nat

def Cursor.start (ts : Tokens) : Cursor :=
  ⟨ts, 0, 0, 0⟩

/-- The tokens from the cursor on. -/
def Cursor.rest (c : Cursor) : Tokens :=
  c.tokens.drop c.position

/-- The last token is the closing one, and no other is. -/
def Tokens.Closed (ts : Tokens) : Prop :=
  ∃ front last, ts = front ++ [last] ∧ last.value.isFinish = true ∧
    ∀ t ∈ front, t.value.isFinish = false

namespace Cursor

/-- The cursor stands at one of the tokens, which are closed: before the closing one or at it. -/
structure Within (c : Cursor) : Prop where
  closed : c.tokens.Closed
  lt : c.position < c.tokens.length

/-- The cursor is within closed tokens, this many constructs nest around it, and this many loops. -/
structure Stands (d l : Nat) (c : Cursor) : Prop extends Within c where
  depth : c.depth = d
  loops : c.loops = l

/-- On its way from `c` to `c'` the cursor has not gone back nor left the tokens, and all that is
counted is as it was. -/
structure Leads (c c' : Cursor) : Prop where
  tokens : c'.tokens = c.tokens
  depth : c'.depth = c.depth
  loops : c'.loops = c.loops
  le : c.position ≤ c'.position
  lt : c'.position < c'.tokens.length

variable {c c' c'' : Cursor}

theorem within_start {ts : Tokens} (h : ts.Closed) : (start ts).Within := by
  refine ⟨h, ?_⟩
  obtain ⟨front, last, rfl, -, -⟩ := h
  simp [start]

theorem Within.leads (h : c.Within) : c.Leads c :=
  ⟨rfl, rfl, rfl, Nat.le_refl _, h.lt⟩

theorem Leads.trans (h : c.Leads c') (h' : c'.Leads c'') : c.Leads c'' :=
  ⟨h'.tokens.trans h.tokens, h'.depth.trans h.depth, h'.loops.trans h.loops,
    Nat.le_trans h.le h'.le, h'.lt⟩

theorem Leads.within (h : c.Leads c') (hc : c.Within) : c'.Within :=
  ⟨h.tokens.symm ▸ hc.closed, h.lt⟩

theorem Leads.stands {d l : Nat} (h : c.Leads c') (hc : c.Stands d l) : c'.Stands d l :=
  ⟨h.within hc.toWithin, h.depth.trans hc.depth, h.loops.trans hc.loops⟩

theorem Within.rest_eq (h : c.Within) :
    c.rest = ⟨c.rest.current, c.rest.span⟩ :: c.tokens.drop (c.position + 1) := by
  rw [rest, List.drop_eq_getElem_cons h.lt]
  rfl

theorem Within.getElem?_eq (h : c.Within) :
    c.tokens[c.position]? = some ⟨c.rest.current, c.rest.span⟩ := by
  have hhead := congrArg List.head? h.rest_eq
  rwa [rest, List.head?_drop] at hhead

theorem length_rest (c : Cursor) : c.rest.length = c.tokens.length - c.position :=
  List.length_drop

theorem Leads.length_le (h : c.Leads c') : c'.rest.length ≤ c.rest.length := by
  rw [length_rest, length_rest, h.tokens]
  exact Nat.sub_le_sub_left h.le _

/-- At least the closing token is left. -/
theorem Within.not_spent (h : c.Within) : ¬c.rest.length ≤ 0 := by
  rw [h.rest_eq]
  exact Nat.not_succ_le_zero _

/-- Only the closing token is the last one. -/
theorem Within.next (h : c.Within) (hc : c.rest.current.isFinish = false) :
    c.position + 1 < c.tokens.length := by
  obtain ⟨front, last, htokens, hlast, -⟩ := h.closed
  have hlt := h.lt
  have hget := h.getElem?_eq
  have hne : c.position ≠ front.length := by
    intro hposition
    rw [htokens, hposition, List.getElem?_concat_length] at hget
    rw [Option.some.inj hget, hc] at hlast
    cases hlast
  rw [htokens, List.length_append, List.length_singleton] at hlt ⊢
  omega

end Cursor

/-- Why a walk stops before its end. -/
inductive Stop where
  | fault (e : ParseFault)
  /-- There is no token at the cursor, or it is not one that the walk can be at. -/
  | lost

/-- A way to go on from a cursor. The counts are there after a fault as well, so whoever raised them
has to lower them again. -/
abbrev Walk (α : Type) := ExceptT Stop (StateT Cursor Option) α

namespace Walk

variable {α : Type}

/-- How the walk ends from this cursor and where the cursor is then; nothing if it never ends. -/
def outcome (w : Walk α) (c : Cursor) : Option (Except Stop α × Cursor) :=
  (ExceptT.run w).run c

def orLost : Option α → Walk α
  | some a => return a
  | none => throw .lost

def token : Walk (Spanned Token) := do
  let c ← get
  orLost c.tokens[c.position]?

def current : Walk Token := do
  return (← token).value

def here : Walk Span := do
  return (← token).span

/-- Moves on by one token, but not over the closing one; says where the token was. -/
def advance : Walk Span := do
  let t ← token
  if t.value.isFinish then return t.span
  else
    modify fun c => { c with position := c.position + 1 }
    return t.span

def failAt (cause : ParseCause) (span : Span) : Walk α :=
  throw (.fault ⟨cause, span⟩)

def fail (cause : Token → ParseCause) : Walk α := do
  let t ← token
  failAt (cause t.value) t.span

def isAt (mark : Symbol) : Walk Bool := do
  return (← current).isSymbol mark

def skip (mark : Symbol) : Walk Bool := do
  if ← isAt mark then
    let _ ← advance
    return true
  else return false

def skipWord (word : Keyword) : Walk Bool := do
  if (← current).isKeyword word then
    let _ ← advance
    return true
  else return false

def expect (mark : Symbol) : Walk Span := do
  if ← isAt mark then advance
  else fail (.expectedToken [.symbol mark])

def expectWord (word : Keyword) : Walk Span := do
  if (← current).isKeyword word then advance
  else fail (.expectedToken [.keyword word])

def identifier : Walk (String × Span) := do
  match ← current with
  | .identifier name => return (name, ← advance)
  | .keyword .new => fail fun _ => .reservedWord .new
  | _ => fail .expectedIdentifier

/-- A loop surrounds the cursor in its function. -/
def inLoop : Walk Bool := do
  return 0 < (← get).loops

end Walk

end ModuleLoader.Script
