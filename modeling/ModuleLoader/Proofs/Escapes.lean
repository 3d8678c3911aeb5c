import Mathlib.Data.List.Forall2
import Mathlib.Data.List.Induction
import Mathlib.Data.Nat.Digits.Defs
import ModuleLoader.Script.Escape

/-! Which bodies of string literals are accepted, and what they stand for. A body is cut into parts,
each of which stands for one character: a character as it is, a backslash with the character after
it, or an escape with the digits of a code. The reader takes a plus sign for the first of these
digits; but for that, it accepts the bodies all of whose escapes are well-formed. -/
namespace ModuleLoader.Script

/-! ### Codes in hexadecimal digits -/

/-- The character is the hexadecimal digit of this value, in one of its two cases. -/
def HexDigit (c : Char) (value : Nat) : Prop :=
  "0123456789abcdef".toList[value]? = some c ∨ "0123456789ABCDEF".toList[value]? = some c

/-- The characters are hexadecimal digits, and spell this number, the last of them its units. -/
def Numeral (ds : List Char) (n : Nat) : Prop :=
  ∃ values, List.Forall₂ HexDigit ds.reverse values ∧ n = Nat.ofDigits 16 values

/-- A numeral, of which the first digit may be a plus sign instead. -/
def SignedNumeral (ds : List Char) (n : Nat) : Prop :=
  Numeral ds n ∨ ∃ more, ds = '+' :: more ∧ Numeral more n

theorem HexDigit.bounds {c : Char} {value : Nat} (h : HexDigit c value) :
    c.toNat < 128 ∧ value < 16 := by
  have hascii : ("0123456789abcdef".toList ++ "0123456789ABCDEF".toList).all
      (fun d => d.toNat < 128) = true := by
    decide
  have hbound (hmem : c ∈ "0123456789abcdef".toList ++ "0123456789ABCDEF".toList) :
      c.toNat < 128 := of_decide_eq_true (List.all_eq_true.mp hascii c hmem)
  obtain h | h := h
  · refine ⟨hbound (List.mem_append_left _ (List.mem_of_getElem? h)), ?_⟩
    exact (List.getElem?_eq_some_iff.mp h).1
  · refine ⟨hbound (List.mem_append_right _ (List.mem_of_getElem? h)), ?_⟩
    exact (List.getElem?_eq_some_iff.mp h).1

theorem bounds_of_hexValue? {c : Char} {value : Nat} (h : Text.hexValue? c = some value) :
    c.toNat < 128 ∧ value < 16 := by
  simp only [Text.hexValue?, Char.le_def, UInt32.le_iff_toNat_le, Char.toNat_val] at h
  have h0 : '0'.toNat = 48 := rfl
  have h9 : '9'.toNat = 57 := rfl
  have ha : 'a'.toNat = 97 := rfl
  have hf : 'f'.toNat = 102 := rfl
  have hA : 'A'.toNat = 65 := rfl
  have hF : 'F'.toNat = 70 := rfl
  split at h
  · cases h
    omega
  · split at h
    · cases h
      omega
    · split at h
      · cases h
        omega
      · contradiction

theorem hexValue?_eq_some_iff {c : Char} {value : Nat} :
    Text.hexValue? c = some value ↔ HexDigit c value := by
  have hascii : ∀ n < 128, ∀ v < 16,
      Text.hexValue? (Char.ofNat n) = some v ↔ HexDigit (Char.ofNat n) v := by
    unfold HexDigit
    decide +kernel
  constructor
  · intro h
    obtain ⟨hc, hv⟩ := bounds_of_hexValue? h
    have hiff := hascii c.toNat hc value hv
    rw [Char.ofNat_toNat] at hiff
    exact hiff.mp h
  · intro h
    obtain ⟨hc, hv⟩ := h.bounds
    have hiff := hascii c.toNat hc value hv
    rw [Char.ofNat_toNat] at hiff
    exact hiff.mpr h

theorem hexNumber?_concat (ds : List Char) (c : Char) :
    Text.hexNumber? (ds ++ [c]) =
      (Text.hexNumber? ds).bind fun n => (Text.hexValue? c).map fun v => 16 * n + v := by
  simp only [Text.hexNumber?, List.foldl_append, List.foldl_cons, List.foldl_nil]
  cases List.foldl _ (some 0) ds <;> cases Text.hexValue? c <;> rfl

theorem numeral_nil_iff {n : Nat} : Numeral [] n ↔ n = 0 := by
  constructor
  · rintro ⟨values, hvalues, rfl⟩
    cases hvalues
    rfl
  · rintro rfl
    exact ⟨[], .nil, rfl⟩

theorem numeral_concat_iff {ds : List Char} {c : Char} {n : Nat} :
    Numeral (ds ++ [c]) n ↔ ∃ n' v, Numeral ds n' ∧ HexDigit c v ∧ n = 16 * n' + v := by
  simp only [Numeral, List.reverse_append, List.reverse_singleton, List.singleton_append,
    List.forall₂_cons_left_iff]
  constructor
  · rintro ⟨_, ⟨v, values, hc, hvalues, rfl⟩, rfl⟩
    refine ⟨_, v, ⟨values, hvalues, rfl⟩, hc, ?_⟩
    rw [Nat.ofDigits_cons, Nat.add_comm]
  · rintro ⟨_, v, ⟨values, hvalues, rfl⟩, hc, rfl⟩
    refine ⟨_, ⟨v, values, hc, hvalues, rfl⟩, ?_⟩
    rw [Nat.ofDigits_cons, Nat.add_comm]

theorem hexNumber?_eq_some_iff {ds : List Char} {n : Nat} :
    Text.hexNumber? ds = some n ↔ Numeral ds n := by
  induction ds using List.reverseRecOn generalizing n with
  | nil => rw [numeral_nil_iff, eq_comm (a := n)]; exact Option.some_inj
  | append_singleton ds c ih =>
    rw [hexNumber?_concat, numeral_concat_iff]
    simp only [Option.bind_eq_some_iff, Option.map_eq_some_iff, ih, hexValue?_eq_some_iff]
    constructor
    · rintro ⟨n', hn', v, hv, rfl⟩
      exact ⟨n', v, hn', hv, rfl⟩
    · rintro ⟨n', v, hn', hv, rfl⟩
      exact ⟨n', hn', v, hv, rfl⟩

theorem not_hexDigit_plus {value : Nat} : ¬ HexDigit '+' value := by
  rw [← hexValue?_eq_some_iff]
  exact nofun

theorem Numeral.plus_notMem {ds : List Char} {n : Nat} (h : Numeral ds n) : '+' ∉ ds := by
  induction ds using List.reverseRecOn generalizing n with
  | nil => exact List.not_mem_nil
  | append_singleton ds c ih =>
    obtain ⟨n', v, hn', hc, -⟩ := numeral_concat_iff.mp h
    rw [List.mem_append, List.mem_singleton, not_or]
    refine ⟨ih hn', ?_⟩
    rintro rfl
    exact not_hexDigit_plus hc

theorem escapeNumber?_eq_some_iff {ds : List Char} {n : Nat} :
    escapeNumber? ds = some n ↔ SignedNumeral ds n := by
  unfold escapeNumber? SignedNumeral
  split
  next more =>
    rw [hexNumber?_eq_some_iff]
    constructor
    · exact fun h => .inr ⟨more, rfl, h⟩
    · rintro (h | ⟨_, ⟨⟩, h⟩)
      · exact absurd (List.mem_cons_self ..) h.plus_notMem
      · exact h
  next hplus =>
    rw [hexNumber?_eq_some_iff]
    exact ⟨.inl, fun h => h.resolve_right fun ⟨more, hds, _⟩ => hplus more hds⟩

theorem charOfCode?_eq_some_iff {n : Nat} {c : Char} :
    charOfCode? n = some c ↔ n.isValidChar ∧ c = Char.ofNat n := by
  by_cases hvalid : n.isValidChar
  · have hsome : charOfCode? n = some (Char.ofNat n) :=
      (dif_pos hvalid).trans (congrArg some (dif_pos hvalid).symm)
    rw [hsome, Option.some_inj, and_iff_right hvalid, eq_comm]
  · have hnone : charOfCode? n = none := dif_neg hvalid
    rw [hnone]
    exact ⟨nofun, fun hboth => absurd hboth.1 hvalid⟩

theorem escapeChar?_eq_some_iff {ds : List Char} {c : Char} :
    escapeChar? ds = some c ↔ ∃ n, SignedNumeral ds n ∧ n.isValidChar ∧ c = Char.ofNat n := by
  simp only [escapeChar?, Option.bind_eq_some_iff, escapeNumber?_eq_some_iff,
    charOfCode?_eq_some_iff]

/-! ### Parts of a body -/

/-- How many characters spell the code behind this mark, if it is the mark of a code. -/
def codeLength? : Char → Option Nat
  | 'x' => some 2
  | 'u' => some 4
  | _ => none

/-- These characters of a body stand for this one. What spells a code is left open; only a code
that is a character's stands for one. -/
inductive Part (Code : List Char → Nat → Prop) : List Char → Char → Prop where
  | plain {c : Char} (hc : c ≠ '\\') : Part Code [c] c
  | short {c : Char} (hc : codeLength? c = none) : Part Code ['\\', c] (shortEscape c)
  | code {mark : Char} {ds : List Char} {n : Nat} (hmark : codeLength? mark = some ds.length)
      (hn : Code ds n) (hvalid : n.isValidChar) : Part Code ('\\' :: mark :: ds) (Char.ofNat n)

/-- The body is made up of parts that stand for the characters of this text, one each. -/
def Reads (Code : List Char → Nat → Prop) (body text : List Char) : Prop :=
  ∃ parts, body = parts.flatten ∧ List.Forall₂ (Part Code) parts text

theorem codeLength?_eq_none_iff {c : Char} : codeLength? c = none ↔ c ≠ 'x' ∧ c ≠ 'u' := by
  unfold codeLength?
  split <;> simp_all

theorem codeLength?_eq_some_iff {c : Char} {n : Nat} :
    codeLength? c = some n ↔ c = 'x' ∧ n = 2 ∨ c = 'u' ∧ n = 4 := by
  unfold codeLength?
  split <;> simp_all [eq_comm]

/-- A body starts with one part at most, however it goes on. -/
theorem Part.unique {Code : List Char → Nat → Prop} {p p' rest rest' : List Char} {c c' : Char}
    (h : Part Code p c) (h' : Part Code p' c') (hbody : p ++ rest = p' ++ rest') :
    p = p' ∧ rest = rest' := by
  cases h with
  | plain hc => cases h' <;> simp_all
  | @short c hc =>
    cases h' with
    | plain hc' => simp_all [eq_comm]
    | short hc' => simp_all
    | code hmark' => simp_all
  | @code mark ds n hmark =>
    cases h' with
    | plain hc' => simp_all [eq_comm]
    | short hc' => simp_all
    | @code mark' ds' n' hmark' =>
      simp only [List.cons_append, List.cons.injEq, true_and] at hbody
      obtain ⟨rfl, hbody⟩ := hbody
      rw [hmark, Option.some_inj] at hmark'
      obtain ⟨rfl, rfl⟩ := List.append_inj hbody hmark'
      exact ⟨rfl, rfl⟩

theorem Part.ne_nil {Code : List Char → Nat → Prop} {p : List Char} {c : Char}
    (h : Part Code p c) : p ≠ [] := by
  cases h <;> exact List.cons_ne_nil _ _

theorem parts_unique {Code : List Char → Nat → Prop} {parts parts' : List (List Char)}
    {text text' : List Char} (h : List.Forall₂ (Part Code) parts text)
    (h' : List.Forall₂ (Part Code) parts' text') (hbody : parts.flatten = parts'.flatten) :
    parts = parts' := by
  induction h generalizing parts' text' with
  | nil =>
    cases h' with
    | nil => rfl
    | cons hp' _ =>
      rw [List.flatten_nil, List.flatten_cons, eq_comm, List.append_eq_nil_iff] at hbody
      exact absurd hbody.1 hp'.ne_nil
  | cons hp hrest ih =>
    cases h' with
    | nil =>
      rw [List.flatten_nil, List.flatten_cons, List.append_eq_nil_iff] at hbody
      exact absurd hbody.1 hp.ne_nil
    | cons hp' hrest' =>
      rw [List.flatten_cons, List.flatten_cons] at hbody
      obtain ⟨rfl, hrests⟩ := hp.unique hp' hbody
      rw [ih hrest' hrests]

/-! ### The reader -/

theorem unescape_part {p : List Char} {c : Char} (h : Part SignedNumeral p c) (rest : List Char) :
    unescape (p ++ rest) = (unescape rest).map (c :: ·) := by
  cases h with
  | plain hc =>
    show unescape (_ :: rest) = _
    rw [unescape] <;> simp_all
  | short hc =>
    obtain ⟨hx, hu⟩ := codeLength?_eq_none_iff.mp hc
    show unescape ('\\' :: _ :: rest) = _
    rw [unescape] <;> simp_all
  | @code mark ds n hmark hn hvalid =>
    have hchar := escapeChar?_eq_some_iff.mpr ⟨n, hn, hvalid, rfl⟩
    obtain ⟨rfl, hlength⟩ | ⟨rfl, hlength⟩ := codeLength?_eq_some_iff.mp hmark
    · obtain ⟨a, b, rfl⟩ := List.length_eq_two.mp hlength
      show unescape ('\\' :: 'x' :: a :: b :: rest) = _
      rw [unescape, hchar]
      cases unescape rest <;> rfl
    · obtain ⟨a, b, d, e, rfl⟩ : ∃ a b d e, ds = [a, b, d, e] := by
        match ds, hlength with
        | [a, b, d, e], _ => exact ⟨a, b, d, e, rfl⟩
      show unescape ('\\' :: 'u' :: a :: b :: d :: e :: rest) = _
      rw [unescape, hchar]
      cases unescape rest <;> rfl

theorem unescape_of_reads {body text : List Char} (h : Reads SignedNumeral body text) :
    unescape body = some text := by
  obtain ⟨parts, rfl, hparts⟩ := h
  induction hparts with
  | nil => rfl
  | cons hp _ ih => rw [List.flatten_cons, unescape_part hp, ih, Option.map_some]

theorem Reads.cons {Code : List Char → Nat → Prop} {p body text : List Char} {c : Char}
    (hp : Part Code p c) (h : Reads Code body text) : Reads Code (p ++ body) (c :: text) := by
  obtain ⟨parts, rfl, hparts⟩ := h
  exact ⟨p :: parts, rfl, .cons hp hparts⟩

theorem reads_of_unescape {body text : List Char} (h : unescape body = some text) :
    Reads SignedNumeral body text := by
  fun_induction unescape body generalizing text with
  | case1 =>
    cases h
    exact ⟨[], rfl, .nil⟩
  | case2 a b rest ih =>
    obtain ⟨c, hc, more, hmore, rfl⟩ : ∃ c, escapeChar? [a, b] = some c ∧
        ∃ more, unescape rest = some more ∧ text = c :: more := by
      simpa [Option.bind_eq_some_iff, eq_comm (b := text)] using h
    obtain ⟨n, hn, hvalid, rfl⟩ := escapeChar?_eq_some_iff.mp hc
    have hp : Part SignedNumeral ['\\', 'x', a, b] (Char.ofNat n) := .code rfl hn hvalid
    exact (ih hmore).cons hp
  | case3 => contradiction
  | case4 a b c d rest ih =>
    obtain ⟨e, he, more, hmore, rfl⟩ : ∃ e, escapeChar? [a, b, c, d] = some e ∧
        ∃ more, unescape rest = some more ∧ text = e :: more := by
      simpa [Option.bind_eq_some_iff, eq_comm (b := text)] using h
    obtain ⟨n, hn, hvalid, rfl⟩ := escapeChar?_eq_some_iff.mp he
    have hp : Part SignedNumeral ['\\', 'u', a, b, c, d] (Char.ofNat n) := .code rfl hn hvalid
    exact (ih hmore).cons hp
  | case5 => contradiction
  | case6 => contradiction
  | case7 c rest _ hx _ hu ih =>
    obtain ⟨more, hmore, rfl⟩ := Option.map_eq_some_iff.mp h
    exact (ih hmore).cons (.short (codeLength?_eq_none_iff.mpr ⟨hx, hu⟩))
  | case8 c rest _ _ _ _ hend hslash ih =>
    obtain ⟨more, hmore, rfl⟩ := Option.map_eq_some_iff.mp h
    refine (ih hmore).cons (.plain fun hc => ?_)
    -- behind a backslash there is either a character or the end of the body
    cases rest with
    | nil => exact hend hc rfl
    | cons d rest => exact hslash d rest hc rfl

theorem unescape_eq_some_iff {body text : List Char} :
    unescape body = some text ↔ Reads SignedNumeral body text :=
  ⟨reads_of_unescape, unescape_of_reads⟩

/-! ### Signs -/

theorem Part.mono {Code Code' : List Char → Nat → Prop} (hcode : ∀ ds n, Code ds n → Code' ds n)
    {p : List Char} {c : Char} (h : Part Code p c) : Part Code' p c := by
  cases h with
  | plain hc => exact .plain hc
  | short hc => exact .short hc
  | code hmark hn hvalid => exact .code hmark (hcode _ _ hn) hvalid

/-- In an escape with a code, the character behind the mark is a plus sign. -/
def HasSign (p : List Char) : Prop :=
  p[2]? = some '+'

theorem Part.not_hasSign {p : List Char} {c : Char} (h : Part Numeral p c) : ¬ HasSign p := by
  cases h with
  | plain | short => exact nofun
  | code _ hn _ => exact fun hsign => hn.plus_notMem (List.mem_of_getElem? hsign)

theorem Part.of_not_hasSign {p : List Char} {c : Char} (h : Part SignedNumeral p c)
    (hsign : ¬ HasSign p) : Part Numeral p c := by
  cases h with
  | plain hc => exact .plain hc
  | short hc => exact .short hc
  | code hmark hn hvalid =>
    obtain hn | ⟨more, rfl, -⟩ := hn
    · exact .code hmark hn hvalid
    · exact absurd rfl hsign

theorem Reads.signed {body text : List Char} (h : Reads Numeral body text) :
    Reads SignedNumeral body text := by
  obtain ⟨parts, rfl, hparts⟩ := h
  exact ⟨parts, rfl, hparts.imp fun _ _ hp => hp.mono fun _ _ => .inl⟩

theorem not_hasSign_of_reads {body text text' : List Char} (h : Reads Numeral body text)
    {parts : List (List Char)} (hbody : body = parts.flatten)
    (hparts : List.Forall₂ (Part SignedNumeral) parts text') : ∀ p ∈ parts, ¬ HasSign p := by
  obtain ⟨parts', rfl, hparts'⟩ := h
  have hsigned : List.Forall₂ (Part SignedNumeral) parts' text :=
    hparts'.imp fun _ _ hp => hp.mono fun _ _ => .inl
  obtain rfl := parts_unique hsigned hparts hbody
  have hplain : List.Forall₂ (fun p c => ¬ HasSign p ∧ Part Numeral p c) parts' text :=
    hparts'.imp fun _ _ hp => ⟨hp.not_hasSign, hp⟩
  exact ((List.forall₂_and_left _ _).mp hplain).1

theorem unescape_eq_some_iff_numeral {body : List Char} :
    (∀ text, unescape body = some text ↔ Reads Numeral body text) ↔
      ∀ parts text, body = parts.flatten → List.Forall₂ (Part SignedNumeral) parts text →
        ∀ p ∈ parts, ¬ HasSign p := by
  constructor
  · intro hsame parts text hbody hparts
    have hread := (hsame text).mp (unescape_of_reads ⟨parts, hbody, hparts⟩)
    exact not_hasSign_of_reads hread hbody hparts
  · intro hplain text
    rw [unescape_eq_some_iff]
    refine ⟨fun ⟨parts, hbody, hparts⟩ => ⟨parts, hbody, ?_⟩, Reads.signed⟩
    have hboth := (List.forall₂_and_left _ _).mpr ⟨hplain parts text hbody hparts, hparts⟩
    exact hboth.imp fun _ _ hp => hp.2.of_not_hasSign hp.1

/-- A body is accepted just if it is made up of characters that stand for themselves, of backslashes
with a character, and of escapes with two or four digits that spell the code of a character; it then
stands for the characters of these parts, in their order. Only a plus sign passes for the first of
the digits too: what is accepted and what it stands for is as if the digits had to be hexadecimal
ones, just for the bodies that are not read with such a sign. -/
theorem unescape_exact (body : List Char) :
    (∀ text, unescape body = some text ↔ Reads SignedNumeral body text) ∧
    (∀ text, Reads Numeral body text → unescape body = some text) ∧
    ((∀ text, unescape body = some text ↔ Reads Numeral body text) ↔
      ∀ parts text, body = parts.flatten → List.Forall₂ (Part SignedNumeral) parts text →
        ∀ p ∈ parts, ¬ HasSign p) :=
  ⟨fun _ => unescape_eq_some_iff, fun _ h => unescape_of_reads h.signed,
    unescape_eq_some_iff_numeral⟩

/-- A plus sign passes for the first of two digits, though no well-formed body has one there. -/
theorem unescape_plus :
    unescape "\\x+A".toList = some ['\n'] ∧ ¬ ∃ text, Reads Numeral "\\x+A".toList text := by
  have hcode : SignedNumeral ['+', 'A'] 10 := escapeNumber?_eq_some_iff.mp rfl
  have hparts : List.Forall₂ (Part SignedNumeral) ["\\x+A".toList] ['\n'] :=
    .cons (.code rfl hcode (by decide)) .nil
  refine ⟨rfl, fun ⟨text, hread⟩ => ?_⟩
  exact not_hasSign_of_reads hread rfl hparts _ (List.mem_singleton_self _) rfl

end ModuleLoader.Script
