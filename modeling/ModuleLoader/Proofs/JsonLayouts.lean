import Mathlib.Tactic.ByContra
import ModuleLoader.Proofs.JsonTexts

/-! JSON values that are read back. What a value is written as, in either layout, is read as that
value, if it nests no deeper than the reader goes; else the reader refuses it. -/
namespace ModuleLoader.Json

/-! ### Layouts -/

theorem induct {P : Json → Prop} (null : P .null) (bool : ∀ b, P (.bool b))
    (number : ∀ n, P (.number n)) (string : ∀ s, P (.string s))
    (array : ∀ items, (∀ item ∈ items, P item) → P (.array items))
    (object : ∀ fields, (∀ f ∈ fields, P f.2) → P (.object fields)) : ∀ j, P j
  | .null => null
  | .bool b => bool b
  | .number n => number n
  | .string s => string s
  | .array items => array items fun item _ =>
    induct null bool number string array object item
  | .object fields => object fields fun (key, value) hfield =>
    have := List.sizeOf_lt_of_mem hfield
    induct null bool number string array object value
termination_by j => sizeOf j
decreasing_by
  · rename_i hitem
    have hsize := List.sizeOf_lt_of_mem hitem
    simp only [Json.array.sizeOf_spec]
    omega
  · simp only [Json.object.sizeOf_spec, Prod.mk.sizeOf_spec] at this ⊢
    omega

/-- The blanks that a layout puts in front of what stands at a depth, and behind a colon. -/
structure Spacing where
  gap : Nat → List Char
  colon : List Char
  gap_blank : ∀ depth, ∀ c ∈ gap depth, isSpace c = true
  colon_blank : ∀ c ∈ colon, isSpace c = true

namespace Spacing

def none : Spacing where
  gap _ := []
  colon := []
  gap_blank _ _ hc := nomatch hc
  colon_blank _ hc := nomatch hc

def indented : Spacing where
  gap := newline
  colon := [' ']
  gap_blank depth c hc := by
    obtain rfl | hc := List.mem_cons.mp hc
    · rfl
    · rw [List.eq_of_mem_replicate hc]
      rfl
  colon_blank c hc := by
    rw [List.mem_singleton.mp hc]
    rfl

end Spacing

mutual

/-- The text of a value that stands at a depth. -/
def laid (s : Spacing) (depth : Nat) : Json → List Char
  | .null => "null".toList
  | .bool true => "true".toList
  | .bool false => "false".toList
  | .number n => numberText n
  | .string text => quote text
  | .array [] => ['[', ']']
  | .array (item :: more) =>
    '[' :: (s.gap (depth + 1) ++ (laid s (depth + 1) item ++ laidItems s depth more))
  | .object [] => ['\x7b', '\x7d']
  | .object ((key, value) :: more) =>
    '\x7b' :: (s.gap (depth + 1) ++ (quote key ++ ':' :: (s.colon ++
      (laid s (depth + 1) value ++ laidFields s depth more))))

/-- What follows an item of an array: the other items and the closing bracket. -/
def laidItems (s : Spacing) (depth : Nat) : List Json → List Char
  | [] => s.gap depth ++ [']']
  | item :: more =>
    ',' :: (s.gap (depth + 1) ++ (laid s (depth + 1) item ++ laidItems s depth more))

/-- What follows a member of an object: the other members and the closing brace. -/
def laidFields (s : Spacing) (depth : Nat) : List (String × Json) → List Char
  | [] => s.gap depth ++ ['\x7d']
  | (key, value) :: more =>
    ',' :: (s.gap (depth + 1) ++ (quote key ++ ':' :: (s.colon ++
      (laid s (depth + 1) value ++ laidFields s depth more))))

end

theorem laid_array_cons (s : Spacing) (depth : Nat) (item : Json) (more : List Json) :
    laid s depth (.array (item :: more)) =
      '[' :: (s.gap (depth + 1) ++ (laid s (depth + 1) item ++ laidItems s depth more)) :=
  rfl

theorem laid_object_cons (s : Spacing) (depth : Nat) (f : String × Json)
    (more : List (String × Json)) : laid s depth (.object (f :: more)) =
      '\x7b' :: (s.gap (depth + 1) ++ (quote f.1 ++ ':' :: (s.colon ++
        (laid s (depth + 1) f.2 ++ laidFields s depth more)))) :=
  rfl

theorem compactItemsOnto_eq (depth : Nat) (rest : List Char) (item : Json) (more : List Json)
    (h : ∀ j ∈ item :: more, ∀ rest, compactOnto rest j = laid .none (depth + 1) j ++ rest) :
    compactItemsOnto rest (item :: more) =
      laid .none (depth + 1) item ++ (laidItems .none depth more ++ rest) := by
  induction more generalizing item with
  | nil => simp [compactItemsOnto, h item, laidItems, Spacing.none]
  | cons next more ih =>
    rw [compactItemsOnto, ih next fun j hj => h j (List.mem_cons_of_mem _ hj),
      h item (List.mem_cons_self ..)]
    simp [laidItems, Spacing.none]

theorem compactFieldsOnto_eq (depth : Nat) (rest : List Char) (f : String × Json)
    (more : List (String × Json))
    (h : ∀ g ∈ f :: more, ∀ rest, compactOnto rest g.2 = laid .none (depth + 1) g.2 ++ rest) :
    compactFieldsOnto rest (f :: more) = quote f.1 ++ ':' ::
      (laid .none (depth + 1) f.2 ++ (laidFields .none depth more ++ rest)) := by
  induction more generalizing f with
  | nil => simp [compactFieldsOnto, h f, laidFields, Spacing.none]
  | cons next more ih =>
    rw [compactFieldsOnto, ih next fun g hg => h g (List.mem_cons_of_mem _ hg),
      h f (List.mem_cons_self ..)]
    simp [laidFields, Spacing.none]

theorem compactOnto_eq (j : Json) : ∀ (depth : Nat) (rest : List Char),
    compactOnto rest j = laid .none depth j ++ rest := by
  induction j using induct with
  | null => exact fun _ _ => rfl
  | bool b => cases b <;> exact fun _ _ => rfl
  | number n => exact fun _ _ => rfl
  | string s => exact fun _ _ => rfl
  | array items ih =>
    intro depth rest
    cases items with
    | nil => rfl
    | cons item more =>
      show '[' :: compactItemsOnto rest (item :: more) = _
      rw [compactItemsOnto_eq depth rest item more fun j hj => ih j hj (depth + 1)]
      simp [laid_array_cons, Spacing.none]
  | object fields ih =>
    intro depth rest
    cases fields with
    | nil => rfl
    | cons f more =>
      show '\x7b' :: compactFieldsOnto rest (f :: more) = _
      rw [compactFieldsOnto_eq depth rest f more fun g hg => ih g hg (depth + 1)]
      simp [laid_object_cons, Spacing.none]

theorem prettyItemsOnto_eq (depth : Nat) (rest : List Char) (item : Json) (more : List Json)
    (h : ∀ j ∈ item :: more, ∀ rest,
      prettyOnto (depth + 1) rest j = laid .indented (depth + 1) j ++ rest) :
    prettyItemsOnto depth rest (item :: more) = newline (depth + 1) ++
      (laid .indented (depth + 1) item ++ (laidItems .indented depth more ++ rest)) := by
  induction more generalizing item with
  | nil => simp [prettyItemsOnto, h item, laidItems, Spacing.indented]
  | cons next more ih =>
    rw [prettyItemsOnto, ih next fun j hj => h j (List.mem_cons_of_mem _ hj),
      h item (List.mem_cons_self ..)]
    simp [laidItems, Spacing.indented]

theorem prettyFieldsOnto_eq (depth : Nat) (rest : List Char) (f : String × Json)
    (more : List (String × Json))
    (h : ∀ g ∈ f :: more, ∀ rest,
      prettyOnto (depth + 1) rest g.2 = laid .indented (depth + 1) g.2 ++ rest) :
    prettyFieldsOnto depth rest (f :: more) = newline (depth + 1) ++ (quote f.1 ++ ':' :: ' ' ::
      (laid .indented (depth + 1) f.2 ++ (laidFields .indented depth more ++ rest))) := by
  induction more generalizing f with
  | nil => simp [prettyFieldsOnto, h f, laidFields, Spacing.indented]
  | cons next more ih =>
    rw [prettyFieldsOnto, ih next fun g hg => h g (List.mem_cons_of_mem _ hg),
      h f (List.mem_cons_self ..)]
    simp [laidFields, Spacing.indented]

theorem prettyOnto_eq (j : Json) : ∀ (depth : Nat) (rest : List Char),
    prettyOnto depth rest j = laid .indented depth j ++ rest := by
  induction j using induct with
  | null => exact fun _ _ => rfl
  | bool b => cases b <;> exact fun _ _ => rfl
  | number n => exact fun _ _ => rfl
  | string s => exact fun _ _ => rfl
  | array items ih =>
    intro depth rest
    cases items with
    | nil => rfl
    | cons item more =>
      show '[' :: prettyItemsOnto depth rest (item :: more) = _
      rw [prettyItemsOnto_eq depth rest item more fun j hj => ih j hj (depth + 1)]
      simp [laid_array_cons, Spacing.indented]
  | object fields ih =>
    intro depth rest
    cases fields with
    | nil => rfl
    | cons f more =>
      show '\x7b' :: prettyFieldsOnto depth rest (f :: more) = _
      rw [prettyFieldsOnto_eq depth rest f more fun g hg => ih g hg (depth + 1)]
      simp [laid_object_cons, Spacing.indented]

/-- The text of a value in one layout or the other. -/
theorem text_eq_laid (pretty : Bool) : ∃ s : Spacing, ∀ j : Json,
    (if pretty then j.pretty else j.compact) = String.ofList (laid s 0 j) := by
  cases pretty with
  | false => exact ⟨.none, fun j => congrArg String.ofList (by simp [compactOnto_eq j 0])⟩
  | true => exact ⟨.indented, fun j => congrArg String.ofList (by simp [prettyOnto_eq j 0])⟩

/-! ### Reading a layout -/

/-- The numbers in it are integers that doubles tell apart, and no object in it has a key twice. -/
inductive Exact : Json → Prop where
  | null : Exact .null
  | bool (b : Bool) : Exact (.bool b)
  | number {i : Int} (hi : i.natAbs < Number.exactBound) : Exact (.number (.integer i))
  | string (s : String) : Exact (.string s)
  | array {items : List Json} (hitems : ∀ item ∈ items, Exact item) : Exact (.array items)
  | object {fields : List (String × Json)} (hkeys : (Dict.keys fields).Nodup)
      (hfields : ∀ f ∈ fields, Exact f.2) : Exact (.object fields)

/-- At most so many containers are one in another. -/
def Within : Nat → Json → Prop
  | 0, .array _ => False
  | 0, .object _ => False
  | levels + 1, .array items => ∀ item ∈ items, Within levels item
  | levels + 1, .object fields => ∀ f ∈ fields, Within levels f.2
  | _, _ => True

/-- Something was read, up to the rest of the text, if it fits; else it was refused. -/
structure Takes {α : Type} (r : Except ReadError (α × Input)) (fits : Prop) (a : α)
    (rest : List Char) : Prop where
  taken : fits → ∃ mark, r = .ok (a, ⟨rest, mark⟩)
  refused : ¬ fits → ∃ e, r = .error e

section

variable {α β : Type} {r : Except ReadError (α × Input)} {p q : Prop} {a : α}
  {rest rest' : List Char}

theorem Takes.of_ok {mark : Mark} (hp : p) (h : r = .ok (a, ⟨rest, mark⟩)) : Takes r p a rest :=
  ⟨fun _ => ⟨mark, h⟩, fun hn => absurd hp hn⟩

theorem Takes.of_error {e : ReadError} (hp : ¬ p) (h : r = .error e) : Takes r p a rest :=
  ⟨fun h => absurd h hp, fun _ => ⟨e, h⟩⟩

theorem Takes.congr (h : Takes r p a rest) (hpq : p ↔ q) : Takes r q a rest :=
  ⟨fun hq => h.taken (hpq.mpr hq), fun hq => h.refused (mt hpq.mp hq)⟩

theorem Takes.bind (h : Takes r p a rest) {f : α × Input → Except ReadError (β × Input)} {b : β}
    (hf : ∀ mark, Takes (f (a, ⟨rest, mark⟩)) q b rest') : Takes (r.bind f) (p ∧ q) b rest' := by
  by_cases hp : p
  · obtain ⟨mark, rfl⟩ := h.taken hp
    exact (hf mark).congr ⟨fun hq => ⟨hp, hq⟩, And.right⟩
  · obtain ⟨e, rfl⟩ := h.refused hp
    exact .of_error (fun hpq => hp hpq.1) rfl

theorem Takes.map (h : Takes r p a rest) (f : α → β) :
    Takes (r.map fun (a, i) => (f a, i)) p (f a) rest := by
  by_cases hp : p
  · obtain ⟨mark, rfl⟩ := h.taken hp
    exact .of_ok hp rfl
  · obtain ⟨e, rfl⟩ := h.refused hp
    exact .of_error hp rfl

end

theorem skipSpaces_blank {gap : List Char} (hgap : ∀ c ∈ gap, isSpace c = true) {c : Char}
    (hc : isSpace c = false) (more : List Char) (mark : Mark) :
    skipSpaces (gap ++ c :: more) mark = ⟨c :: more, gap.foldl Mark.next mark⟩ := by
  induction gap generalizing mark with
  | nil => exact skipSpaces_cons hc more mark
  | cons d gap ih =>
    rw [List.cons_append, skipSpaces, if_pos (hgap d (List.mem_cons_self ..)),
      ih fun e he => hgap e (List.mem_cons_of_mem _ he)]
    rfl

theorem laid_head (s : Spacing) (depth : Nat) {j : Json} (hj : j.Exact) :
    ∃ c more, laid s depth j = c :: more ∧ isSpace c = false ∧ c ≠ ']' := by
  cases hj with
  | null => exact ⟨'n', _, rfl, rfl, by decide⟩
  | bool b =>
    cases b
    · exact ⟨'f', _, rfl, rfl, by decide⟩
    · exact ⟨'t', _, rfl, rfl, by decide⟩
  | @number i hi =>
    by_cases hneg : i < 0
    · refine ⟨'-', Number.decimalDigits i.natAbs, ?_, rfl, by decide⟩
      simp [laid, numberText, Number.integerText, hneg]
    · obtain ⟨c, more, hdigits, hc⟩ := decimalDigits_cons i.natAbs
      refine ⟨c, more, ?_, not_isSpace_of_isDigit hc, ?_⟩
      · simp [laid, numberText, Number.integerText, hneg, hdigits]
      · rintro rfl
        contradiction
  | string text => exact ⟨'"', _, rfl, rfl, by decide⟩
  | @array items hitems =>
    cases items <;> exact ⟨'[', _, rfl, rfl, by decide⟩
  | @object fields hkeys hfields =>
    cases fields <;> exact ⟨'\x7b', _, rfl, rfl, by decide⟩

section

variable {item : Reader Json} {gap : List Char} {c : Char} {more : List Char}

theorem itemsRest_close (item : Reader Json) (hgap : ∀ c ∈ gap, isSpace c = true) (fuel : Nat)
    (first : Bool) (done : List Json) (rest : List Char) (mark : Mark) :
    ∃ mark', itemsRest item (fuel + 1) first done ⟨gap ++ ']' :: rest, mark⟩ =
      .ok (done.reverse, ⟨rest, mark'⟩) := by
  refine ⟨(gap.foldl Mark.next mark).next ']', ?_⟩
  conv => lhs; unfold itemsRest
  simp only [Input.trimmed, skipSpaces_blank hgap (by decide : isSpace ']' = false), Input.advance]

theorem itemsRest_first (hgap : ∀ c ∈ gap, isSpace c = true) (hc : isSpace c = false)
    (hclose : c ≠ ']') (fuel : Nat) (done : List Json) (mark : Mark) :
    itemsRest item (fuel + 1) true done ⟨gap ++ c :: more, mark⟩ =
      (item ⟨c :: more, gap.foldl Mark.next mark⟩).bind fun (x, i) =>
        itemsRest item fuel false (x :: done) i := by
  conv => lhs; unfold itemsRest
  simp only [Input.trimmed, skipSpaces_blank hgap hc]
  rw [if_pos trivial]
  cases item ⟨c :: more, gap.foldl Mark.next mark⟩ <;> rfl

theorem itemsRest_next (hgap : ∀ c ∈ gap, isSpace c = true) (hc : isSpace c = false)
    (hclose : c ≠ ']') (fuel : Nat) (done : List Json) (mark : Mark) :
    itemsRest item (fuel + 1) false done ⟨',' :: (gap ++ c :: more), mark⟩ =
      (item ⟨c :: more, gap.foldl Mark.next (mark.next ',')⟩).bind fun (x, i) =>
        itemsRest item fuel false (x :: done) i := by
  conv => lhs; unfold itemsRest
  simp only [Input.trimmed, skipSpaces_cons (by decide : isSpace ',' = false), Input.advance,
    skipSpaces_blank hgap hc]
  split
  · contradiction
  · rename_i heq
    exact absurd (List.cons.inj heq).1 (by decide)
  · rename_i heq
    obtain ⟨rfl, -⟩ := List.cons.inj heq
    rw [if_neg (by decide), if_pos rfl]
    split
    · contradiction
    · rename_i heq
      exact absurd (List.cons.inj heq).1 hclose
    · cases item ⟨c :: more, gap.foldl Mark.next (mark.next ',')⟩ <;> rfl

theorem fieldsRest_close (item : Reader Json) (hgap : ∀ c ∈ gap, isSpace c = true) (fuel : Nat)
    (first : Bool) (done : Dict Json) (rest : List Char) (mark : Mark) :
    ∃ mark', fieldsRest item (fuel + 1) first done ⟨gap ++ '\x7d' :: rest, mark⟩ =
      .ok (done, ⟨rest, mark'⟩) := by
  refine ⟨(gap.foldl Mark.next mark).next '\x7d', ?_⟩
  conv => lhs; unfold fieldsRest
  simp only [Input.trimmed, skipSpaces_blank hgap (by decide : isSpace '\x7d' = false),
    Input.advance]

theorem quote_append (key : String) (more : List Char) :
    ∃ text, quote key ++ more = '"' :: text :=
  ⟨_, rfl⟩

theorem fieldsRest_first (hgap : ∀ c ∈ gap, isSpace c = true) (fuel : Nat) (done : Dict Json)
    (key : String) (mark : Mark) :
    fieldsRest item (fuel + 1) true done ⟨gap ++ (quote key ++ more), mark⟩ =
      (field item ⟨quote key ++ more, gap.foldl Mark.next mark⟩).bind fun (f, i) =>
        fieldsRest item fuel false (done.insert f.1 f.2) i := by
  obtain ⟨text, htext⟩ := quote_append key more
  rw [htext]
  conv => lhs; unfold fieldsRest
  simp only [Input.trimmed, skipSpaces_blank hgap (by decide : isSpace '"' = false)]
  split
  · contradiction
  · rename_i heq
    exact absurd (List.cons.inj heq).1 (by decide)
  · rename_i heq
    obtain ⟨rfl, -⟩ := List.cons.inj heq
    rw [if_pos trivial, if_pos rfl]
    cases field item ⟨'"' :: text, gap.foldl Mark.next mark⟩ <;> rfl

theorem fieldsRest_next (hgap : ∀ c ∈ gap, isSpace c = true) (fuel : Nat) (done : Dict Json)
    (key : String) (mark : Mark) :
    fieldsRest item (fuel + 1) false done ⟨',' :: (gap ++ (quote key ++ more)), mark⟩ =
      (field item ⟨quote key ++ more, gap.foldl Mark.next (mark.next ',')⟩).bind fun (f, i) =>
        fieldsRest item fuel false (done.insert f.1 f.2) i := by
  obtain ⟨text, htext⟩ := quote_append key more
  rw [htext]
  conv => lhs; unfold fieldsRest
  simp only [Input.trimmed, skipSpaces_cons (by decide : isSpace ',' = false), Input.advance,
    skipSpaces_blank hgap (by decide : isSpace '"' = false)]
  split
  · contradiction
  · rename_i heq
    exact absurd (List.cons.inj heq).1 (by decide)
  · rename_i heq
    obtain ⟨rfl, -⟩ := List.cons.inj heq
    rw [if_neg (by decide), if_pos rfl]
    cases field item ⟨'"' :: text, gap.foldl Mark.next (mark.next ',')⟩ <;> rfl

/-- A member of an object is read if its value is. -/
theorem Takes.field {colon : List Char} (hcolon : ∀ c ∈ colon, isSpace c = true)
    (hc : isSpace c = false) {fits : Prop} {value : Json} {rest : List Char}
    (h : ∀ mark, Takes (item ⟨c :: more, mark⟩) fits value rest) (key : String) (mark : Mark) :
    Takes (field item ⟨quote key ++ ':' :: (colon ++ c :: more), mark⟩) fits (key, value) rest := by
  obtain ⟨mark', hkey⟩ := readString_quote key (':' :: (colon ++ c :: more)) (mark.next '"')
  have hread : Json.field item ⟨quote key ++ ':' :: (colon ++ c :: more), mark⟩ =
      (item ⟨c :: more, colon.foldl Mark.next (mark'.next ':')⟩).map
        fun (value, i) => ((key, value), i) := by
    unfold Json.field quote
    simp only [List.cons_append, List.append_assoc, List.nil_append, Input.advance, hkey,
      Input.trimmed, skipSpaces_cons (by decide : isSpace ':' = false), skipSpaces_blank hcolon hc]
    cases item ⟨c :: more, colon.foldl Mark.next (mark'.next ':')⟩ <;> rfl
  rw [hread]
  exact (h _).map _

end

theorem endsNumber_cons {c : Char} (h : c.isDigit = false ∧ c ≠ '.' ∧ c ≠ 'e' ∧ c ≠ 'E')
    (more : List Char) : EndsNumber (c :: more) := by
  intro d hd
  obtain rfl := Option.some.inj hd
  exact h

theorem endsNumber_blank {gap rest : List Char} (hgap : ∀ c ∈ gap, isSpace c = true)
    (hrest : EndsNumber rest) : EndsNumber (gap ++ rest) := by
  cases gap with
  | nil => exact hrest
  | cons c gap =>
    have hc : isSpace c = true := hgap c (List.mem_cons_self ..)
    refine endsNumber_cons ⟨?_, ?_, ?_, ?_⟩ _
    · by_contra hdigit
      rw [not_isSpace_of_isDigit (eq_true_of_ne_false hdigit)] at hc
      contradiction
    all_goals
      rintro rfl
      contradiction

theorem endsNumber_laidItems (s : Spacing) (depth : Nat) (items : List Json) (rest : List Char) :
    EndsNumber (laidItems s depth items ++ rest) := by
  cases items with
  | nil =>
    rw [laidItems, List.append_assoc]
    exact endsNumber_blank (s.gap_blank depth) (endsNumber_cons (by decide) _)
  | cons item more =>
    rw [laidItems]
    exact endsNumber_cons (by decide) _

theorem endsNumber_laidFields (s : Spacing) (depth : Nat) (fields : List (String × Json))
    (rest : List Char) : EndsNumber (laidFields s depth fields ++ rest) := by
  cases fields with
  | nil =>
    rw [laidFields, List.append_assoc]
    exact endsNumber_blank (s.gap_blank depth) (endsNumber_cons (by decide) _)
  | cons f more =>
    rw [laidFields]
    exact endsNumber_cons (by decide) _

theorem length_lt_laidItems (s : Spacing) (depth : Nat) (items : List Json) :
    items.length < (laidItems s depth items).length := by
  induction items with
  | nil => simp [laidItems]
  | cons item more ih =>
    simp only [laidItems, List.length_cons, List.length_append]
    omega

theorem length_lt_laidFields (s : Spacing) (depth : Nat) (fields : List (String × Json)) :
    fields.length < (laidFields s depth fields).length := by
  induction fields with
  | nil => simp [laidFields]
  | cons f more ih =>
    simp only [laidFields, List.length_cons, List.length_append]
    omega

/-- What separates a member from the one in front of it. -/
def lead (first : Bool) : List Char :=
  if first then [] else [',']

section

variable {s : Spacing} {depth : Nat} {item : Reader Json} {fits : Json → Prop} {p q : Prop}
  {rest : List Char}

/-- An item is read, and then the others. -/
theorem takes_item {j : Json} (hj : j.Exact)
    (hitem : ∀ rest mark, EndsNumber rest →
      Takes (item ⟨laid s (depth + 1) j ++ rest, mark⟩) p j rest)
    {fuel : Nat} {done more items : List Json}
    (hmore : ∀ mark, Takes
      (itemsRest item fuel false (j :: done) ⟨laidItems s depth more ++ rest, mark⟩) q items rest)
    (first : Bool) (mark : Mark) :
    Takes (itemsRest item (fuel + 1) first done ⟨lead first ++ (s.gap (depth + 1) ++
      (laid s (depth + 1) j ++ (laidItems s depth more ++ rest))), mark⟩) (p ∧ q) items rest := by
  obtain ⟨c, text, hlaid, hc, hclose⟩ := laid_head s (depth + 1) hj
  have hhead (mark : Mark) := hitem (laidItems s depth more ++ rest) mark
    (endsNumber_laidItems s depth more rest)
  simp only [hlaid, List.cons_append] at hhead ⊢
  cases first with
  | true =>
    show Takes (itemsRest item (fuel + 1) true done ⟨s.gap (depth + 1) ++ c :: _, mark⟩) _ _ _
    rw [itemsRest_first (s.gap_blank (depth + 1)) hc hclose]
    exact (hhead _).bind hmore
  | false =>
    show Takes (itemsRest item (fuel + 1) false done ⟨',' :: (s.gap (depth + 1) ++ c :: _), mark⟩)
      _ _ _
    rw [itemsRest_next (s.gap_blank (depth + 1)) hc hclose]
    exact (hhead _).bind hmore

/-- A member of an object is read, and then the others. -/
theorem takes_member {f : String × Json} (hf : f.2.Exact)
    (hitem : ∀ rest mark, EndsNumber rest →
      Takes (item ⟨laid s (depth + 1) f.2 ++ rest, mark⟩) p f.2 rest)
    {fuel : Nat} {done fields : Dict Json} {more : List (String × Json)}
    (hmore : ∀ mark, Takes (fieldsRest item fuel false (done.insert f.1 f.2)
      ⟨laidFields s depth more ++ rest, mark⟩) q fields rest)
    (first : Bool) (mark : Mark) :
    Takes (fieldsRest item (fuel + 1) first done ⟨lead first ++ (s.gap (depth + 1) ++
      (quote f.1 ++ ':' :: (s.colon ++ (laid s (depth + 1) f.2 ++
        (laidFields s depth more ++ rest))))), mark⟩) (p ∧ q) fields rest := by
  obtain ⟨c, text, hlaid, hc, -⟩ := laid_head s (depth + 1) hf
  have hvalue (mark : Mark) := hitem (laidFields s depth more ++ rest) mark
    (endsNumber_laidFields s depth more rest)
  simp only [hlaid, List.cons_append] at hvalue ⊢
  have hhead (mark : Mark) := Takes.field s.colon_blank hc hvalue f.1 mark
  cases first with
  | true =>
    show Takes (fieldsRest item (fuel + 1) true done ⟨s.gap (depth + 1) ++ (quote f.1 ++ _), mark⟩)
      _ _ _
    rw [fieldsRest_first (s.gap_blank (depth + 1))]
    exact (hhead _).bind hmore
  | false =>
    show Takes (fieldsRest item (fuel + 1) false done
      ⟨',' :: (s.gap (depth + 1) ++ (quote f.1 ++ _)), mark⟩) _ _ _
    rw [fieldsRest_next (s.gap_blank (depth + 1))]
    exact (hhead _).bind hmore

theorem takes_laidItems (items : List Json) (hexact : ∀ j ∈ items, j.Exact)
    (hitems : ∀ j ∈ items, ∀ rest mark, EndsNumber rest →
      Takes (item ⟨laid s (depth + 1) j ++ rest, mark⟩) (fits j) j rest)
    {fuel : Nat} (hfuel : items.length < fuel) (done : List Json) (rest : List Char) (mark : Mark) :
    Takes (itemsRest item fuel false done ⟨laidItems s depth items ++ rest, mark⟩)
      (∀ j ∈ items, fits j) (done.reverse ++ items) rest := by
  induction items generalizing fuel done mark with
  | nil =>
    obtain ⟨fuel, rfl⟩ := Nat.exists_eq_add_of_lt hfuel
    obtain ⟨mark', hclose⟩ := itemsRest_close item (s.gap_blank depth) (0 + fuel) false done rest
      mark
    rw [laidItems, List.append_assoc, List.append_nil]
    exact .of_ok (fun _ hj => nomatch hj) hclose
  | cons j more ih =>
    obtain ⟨hj, hmore⟩ := List.forall_mem_cons.mp hexact
    obtain ⟨htakes, htakesMore⟩ := List.forall_mem_cons.mp hitems
    cases fuel with
    | zero => contradiction
    | succ fuel =>
      have htail := ih hmore htakesMore (Nat.lt_of_succ_lt_succ hfuel) (j :: done)
      rw [List.reverse_cons, List.append_assoc] at htail
      have hall := takes_item hj htakes htail false mark
      rw [List.forall_mem_cons]
      simpa [laidItems, lead] using hall

theorem takes_laidFields (fields : List (String × Json)) (hexact : ∀ f ∈ fields, f.2.Exact)
    (hfields : ∀ f ∈ fields, ∀ rest mark, EndsNumber rest →
      Takes (item ⟨laid s (depth + 1) f.2 ++ rest, mark⟩) (fits f.2) f.2 rest)
    {fuel : Nat} (hfuel : fields.length < fuel) (done : Dict Json)
    (hkeys : (done ++ fields).keys.Nodup) (rest : List Char) (mark : Mark) :
    Takes (fieldsRest item fuel false done ⟨laidFields s depth fields ++ rest, mark⟩)
      (∀ f ∈ fields, fits f.2) (done ++ fields) rest := by
  induction fields generalizing fuel done mark with
  | nil =>
    obtain ⟨fuel, rfl⟩ := Nat.exists_eq_add_of_lt hfuel
    obtain ⟨mark', hclose⟩ := fieldsRest_close item (s.gap_blank depth) (0 + fuel) false done rest
      mark
    rw [laidFields, List.append_assoc, List.append_nil]
    exact .of_ok (fun _ hf => nomatch hf) hclose
  | cons f more ih =>
    obtain ⟨hf, hmore⟩ := List.forall_mem_cons.mp hexact
    obtain ⟨htakes, htakesMore⟩ := List.forall_mem_cons.mp hfields
    cases fuel with
    | zero => contradiction
    | succ fuel =>
      have htail := ih hmore htakesMore (Nat.lt_of_succ_lt_succ hfuel) (done ++ [f])
        (by simpa using hkeys)
      have hinsert : done.insert f.1 f.2 = done ++ [f] :=
        Dict.insert_of_notMem (Dict.notMem_keys_of_nodup hkeys) f.2
      rw [← hinsert] at htail
      have hall := takes_member hf htakes htail false mark
      rw [List.forall_mem_cons]
      simpa [laidFields, lead, hinsert] using hall

end

/-- All of an array behind its opening bracket. -/
theorem takes_array (s : Spacing) (depth : Nat) {item : Reader Json} {fits : Json → Prop}
    (items : List Json) (hexact : ∀ j ∈ items, j.Exact)
    (hitems : ∀ j ∈ items, ∀ rest mark, EndsNumber rest →
      Takes (item ⟨laid s (depth + 1) j ++ rest, mark⟩) (fits j) j rest) :
    ∃ text, laid s depth (.array items) = '[' :: text ∧ ∀ rest mark,
      Takes (itemsRest item ((text ++ rest).length + 1) true [] ⟨text ++ rest, mark⟩)
        (∀ j ∈ items, fits j) items rest := by
  cases items with
  | nil =>
    refine ⟨[']'], rfl, fun rest mark => ?_⟩
    obtain ⟨mark', hclose⟩ := itemsRest_close item (List.forall_mem_nil _) (rest.length + 1) true
      [] rest mark
    exact .of_ok (fun _ hj => nomatch hj) hclose
  | cons j more =>
    obtain ⟨hj, hmore⟩ := List.forall_mem_cons.mp hexact
    obtain ⟨htakes, htakesMore⟩ := List.forall_mem_cons.mp hitems
    refine ⟨_, laid_array_cons s depth j more, fun rest mark => ?_⟩
    have hlength := length_lt_laidItems s depth more
    rw [List.forall_mem_cons, List.append_assoc, List.append_assoc]
    refine takes_item hj htakes (takes_laidItems more hmore htakesMore ?_ [j] rest) true mark
    simp only [List.length_append]
    omega

/-- All of an object behind its opening brace. -/
theorem takes_object (s : Spacing) (depth : Nat) {item : Reader Json} {fits : Json → Prop}
    (fields : List (String × Json)) (hkeys : (Dict.keys fields).Nodup)
    (hexact : ∀ f ∈ fields, f.2.Exact)
    (hfields : ∀ f ∈ fields, ∀ rest mark, EndsNumber rest →
      Takes (item ⟨laid s (depth + 1) f.2 ++ rest, mark⟩) (fits f.2) f.2 rest) :
    ∃ text, laid s depth (.object fields) = '\x7b' :: text ∧ ∀ rest mark,
      Takes (fieldsRest item ((text ++ rest).length + 1) true [] ⟨text ++ rest, mark⟩)
        (∀ f ∈ fields, fits f.2) fields rest := by
  cases fields with
  | nil =>
    refine ⟨['\x7d'], rfl, fun rest mark => ?_⟩
    obtain ⟨mark', hclose⟩ := fieldsRest_close item (List.forall_mem_nil _) (rest.length + 1) true
      [] rest mark
    exact .of_ok (fun _ hf => nomatch hf) hclose
  | cons f more =>
    obtain ⟨hf, hmore⟩ := List.forall_mem_cons.mp hexact
    obtain ⟨htakes, htakesMore⟩ := List.forall_mem_cons.mp hfields
    refine ⟨_, laid_object_cons s depth f more, fun rest mark => ?_⟩
    have hlength := length_lt_laidFields s depth more
    simp only [List.append_assoc, List.cons_append]
    rw [List.forall_mem_cons]
    refine takes_member hf htakes (takes_laidFields more hmore htakesMore ?_ [f] hkeys rest) true
      mark
    simp only [List.length_append, List.length_cons]
    omega

theorem readValue_null (levels : Nat) (rest : List Char) (mark : Mark) :
    ∃ mark', readValue levels ⟨"null".toList ++ rest, mark⟩ = .ok (.null, ⟨rest, mark'⟩) := by
  conv => enter [1, mark', 1]; unfold readValue
  exact ⟨_, rfl⟩

theorem readValue_bool (b : Bool) (levels : Nat) (rest : List Char) (mark : Mark) :
    ∃ mark', readValue levels ⟨laid .none 0 (.bool b) ++ rest, mark⟩ =
      .ok (.bool b, ⟨rest, mark'⟩) := by
  conv => enter [1, mark', 1]; unfold readValue
  cases b <;> exact ⟨_, rfl⟩

theorem readValue_string (s : String) (levels : Nat) (rest : List Char) (mark : Mark) :
    ∃ mark', readValue levels ⟨quote s ++ rest, mark⟩ = .ok (.string s, ⟨rest, mark'⟩) := by
  obtain ⟨mark', hread⟩ := readString_quote s rest (mark.next '"')
  refine ⟨mark', ?_⟩
  have htext : quote s ++ rest = '"' :: (s.toList.flatMap escapeChar ++ '"' :: rest) := by
    simp [quote]
  rw [htext]
  conv => lhs; unfold readValue
  show Except.map _ (readString ⟨s.toList.flatMap escapeChar ++ '"' :: rest, mark.next '"'⟩) = _
  rw [hread]
  rfl

theorem readValue_array (levels : Nat) (rest : List Char) (mark : Mark) :
    readValue (levels + 1) ⟨'[' :: rest, mark⟩ =
      (itemsRest (readValue levels) (rest.length + 1) true [] ⟨rest, mark.next '['⟩).map
        fun (xs, i) => (.array xs, i) := by
  conv => lhs; unfold readValue
  rfl

theorem readValue_object (levels : Nat) (rest : List Char) (mark : Mark) :
    readValue (levels + 1) ⟨'\x7b' :: rest, mark⟩ =
      (fieldsRest (readValue levels) (rest.length + 1) true [] ⟨rest, mark.next '\x7b'⟩).map
        fun (d, i) => (.object d, i) := by
  conv => lhs; unfold readValue
  rfl

theorem readValue_tooDeep (rest : List Char) (mark : Mark) {c : Char} (hc : c = '[' ∨ c = '\x7b') :
    readValue 0 ⟨c :: rest, mark⟩ = .error ⟨.tooDeep, mark.peek (c :: rest)⟩ := by
  conv => lhs; unfold readValue
  obtain rfl | rfl := hc <;> rfl

/-- What a value is written as, in front of what cannot belong to a number, is read as that value if
the value nests no deeper than allowed, and is refused otherwise. -/
theorem takes_laid (s : Spacing) {j : Json} (hj : j.Exact) (levels depth : Nat) (rest : List Char)
    (mark : Mark) (hrest : EndsNumber rest) :
    Takes (readValue levels ⟨laid s depth j ++ rest, mark⟩) (Within levels j) j rest := by
  induction levels using Nat.strongRecOn generalizing j depth rest mark with | ind levels ih
  cases hj with
  | null =>
    obtain ⟨mark', hread⟩ := readValue_null levels rest mark
    exact .of_ok (by cases levels <;> trivial) hread
  | bool b =>
    obtain ⟨mark', hread⟩ := readValue_bool b levels rest mark
    exact .of_ok (by cases levels <;> trivial) (by cases b <;> exact hread)
  | number hi =>
    obtain ⟨mark', hread⟩ := readValue_integer hi hrest levels mark
    exact .of_ok (by cases levels <;> trivial) hread
  | string text =>
    obtain ⟨mark', hread⟩ := readValue_string text levels rest mark
    exact .of_ok (by cases levels <;> trivial) hread
  | @array items hitems =>
    cases levels with
    | zero =>
      cases items <;> exact .of_error id (readValue_tooDeep _ mark (.inl rfl))
    | succ levels =>
      obtain ⟨text, htext, htakes⟩ := takes_array s depth items hitems
        fun j hj => ih levels (Nat.lt_succ_self _) (hitems j hj) (depth + 1)
      rw [htext, List.cons_append, readValue_array]
      exact (htakes rest _).map _
  | @object fields hkeys hfields =>
    cases levels with
    | zero =>
      cases fields <;> exact .of_error id (readValue_tooDeep _ mark (.inr rfl))
    | succ levels =>
      obtain ⟨text, htext, htakes⟩ := takes_object s depth fields hkeys hfields
        fun f hf => ih levels (Nat.lt_succ_self _) (hfields f hf) (depth + 1)
      rw [htext, List.cons_append, readValue_object]
      exact (htakes rest _).map _

/-- The text of a value, in either layout, is read as that value if the reader goes as deep as the
value nests, and is refused otherwise. -/
theorem read_laid (s : Spacing) {j : Json} (hj : j.Exact) :
    (Within maxLevels j → read (String.ofList (laid s 0 j)) = .ok j) ∧
      (¬ Within maxLevels j → ∃ e, read (String.ofList (laid s 0 j)) = .error e) := by
  have htakes := takes_laid s hj maxLevels 0 [] ⟨1, 0⟩ (fun _ hc => nomatch hc)
  unfold read
  rw [String.toList_ofList, ← List.append_nil (laid s 0 j)]
  constructor
  · intro hfits
    obtain ⟨mark, hread⟩ := htakes.taken hfits
    rw [hread]
    rfl
  · intro hfits
    obtain ⟨e, hread⟩ := htakes.refused hfits
    exact ⟨e, by rw [hread]⟩

end ModuleLoader.Json
