import Mathlib.Tactic.SplitIfs
import ModuleLoader.Json.Printer
import ModuleLoader.Json.Reader

/-! JSON strings and integers that are read back: a quoted string is read as that string, whatever
its characters, and the digits of an integer are read as that integer. -/
namespace ModuleLoader.Json

/-! ### Strings -/

theorem hexNumber?_control : ∀ n < 0x20,
    Text.hexNumber? ['0', '0', hexDigit (n / 16), hexDigit (n % 16)] = some n := by
  decide

theorem unicodeEscape_control {c : Char} (h : c.toNat < 0x20) (rest : List Char) (mark : Mark) :
    ∃ mark', unicodeEscape
      ⟨'0' :: '0' :: hexDigit (c.toNat / 16) :: hexDigit (c.toNat % 16) :: rest, mark⟩ =
        .ok (c, ⟨rest, mark'⟩) := by
  unfold unicodeEscape fourDigits
  simp only [hexNumber?_control c.toNat h]
  rw [if_neg (by omega), if_neg (by omega), charOf, Char.ofNat_toNat]
  exact ⟨_, rfl⟩

theorem stringRest_plain {c : Char} (hquote : c ≠ '"') (hslash : c ≠ '\\') (hplain : 0x20 ≤ c.toNat)
    (fuel : Nat) (done rest : List Char) (mark : Mark) :
    stringRest (fuel + 1) done ⟨c :: rest, mark⟩ =
      stringRest fuel (c :: done) ⟨rest, mark.next c⟩ := by
  conv => lhs; unfold stringRest
  split
  · contradiction
  · rename_i heq
    exact absurd (List.cons.inj heq).1 hquote
  · rename_i heq
    exact absurd (List.cons.inj heq).1 hslash
  · rename_i heq
    obtain ⟨rfl, -⟩ := List.cons.inj heq
    rw [if_neg (by omega)]
    rfl

theorem stringRest_escape {c : Char} {fuel : Nat} {done rest : List Char} {mark : Mark} {i : Input}
    (h : escape ⟨rest, mark.next '\\'⟩ = .ok (c, i)) :
    stringRest (fuel + 1) done ⟨'\\' :: rest, mark⟩ = stringRest fuel (c :: done) i := by
  conv => lhs; unfold stringRest
  simp only [Input.advance, h]

/-- What a character of a string is written as is read as that character. -/
theorem stringRest_escapeChar (c : Char) (fuel : Nat) (done rest : List Char) (mark : Mark) :
    ∃ mark', stringRest (fuel + 1) done ⟨escapeChar c ++ rest, mark⟩ =
      stringRest fuel (c :: done) ⟨rest, mark'⟩ := by
  unfold escapeChar
  split_ifs with hquote hslash hback hfeed hnewline hreturn htab hcontrol
  · subst hquote; exact ⟨_, stringRest_escape rfl⟩
  · subst hslash; exact ⟨_, stringRest_escape rfl⟩
  · subst hback; exact ⟨_, stringRest_escape rfl⟩
  · subst hfeed; exact ⟨_, stringRest_escape rfl⟩
  · subst hnewline; exact ⟨_, stringRest_escape rfl⟩
  · subst hreturn; exact ⟨_, stringRest_escape rfl⟩
  · subst htab; exact ⟨_, stringRest_escape rfl⟩
  · obtain ⟨mark', hmark⟩ := unicodeEscape_control hcontrol rest
      ((mark.next '\\').next 'u')
    exact ⟨mark', stringRest_escape hmark⟩
  · exact ⟨_, stringRest_plain hquote hslash (by omega) fuel done rest mark⟩

theorem stringRest_quoted (s : List Char) (done rest : List Char) (mark : Mark) {fuel : Nat}
    (hfuel : s.length < fuel) :
    ∃ mark', stringRest fuel done ⟨s.flatMap escapeChar ++ '"' :: rest, mark⟩ =
      .ok (String.ofList (done.reverse ++ s), ⟨rest, mark'⟩) := by
  induction s generalizing done mark fuel with
  | nil =>
    cases fuel with
    | zero => contradiction
    | succ fuel => exact ⟨_, by rw [List.append_nil]; rfl⟩
  | cons c more ih =>
    cases fuel with
    | zero => contradiction
    | succ fuel =>
      obtain ⟨mark₁, hstep⟩ := stringRest_escapeChar c fuel done
        (more.flatMap escapeChar ++ '"' :: rest) mark
      obtain ⟨mark₂, hrest⟩ := ih (c :: done) mark₁ (Nat.lt_of_succ_lt_succ hfuel)
      refine ⟨mark₂, ?_⟩
      rw [List.flatMap_cons, List.append_assoc, hstep, hrest]
      simp

theorem escapeChar_ne_nil (c : Char) : escapeChar c ≠ [] := by
  unfold escapeChar
  split_ifs <;> exact List.cons_ne_nil _ _

theorem length_le_flatMap_escapeChar (s : List Char) :
    s.length ≤ (s.flatMap escapeChar).length := by
  induction s with
  | nil => exact Nat.le_refl _
  | cons c more ih =>
    have hpos := List.length_pos_iff.mpr (escapeChar_ne_nil c)
    rw [List.flatMap_cons, List.length_append, List.length_cons]
    omega

/-- A quoted string, read behind its opening quote. -/
theorem readString_quote (s : String) (rest : List Char) (mark : Mark) :
    ∃ mark', readString ⟨s.toList.flatMap escapeChar ++ '"' :: rest, mark⟩ =
      .ok (s, ⟨rest, mark'⟩) := by
  have hlength := length_le_flatMap_escapeChar s.toList
  have hfuel : s.toList.length < (s.toList.flatMap escapeChar ++ '"' :: rest).length + 1 := by
    rw [List.length_append]
    omega
  obtain ⟨mark', h⟩ := stringRest_quoted s.toList [] rest mark hfuel
  refine ⟨mark', ?_⟩
  unfold readString
  rw [h]
  simp

/-! ### Integers -/

/-- What may follow a number: nothing that would be read as more of it. -/
def EndsNumber (rest : List Char) : Prop :=
  ∀ c ∈ rest.head?, c.isDigit = false ∧ c ≠ '.' ∧ c ≠ 'e' ∧ c ≠ 'E'

theorem le_ofDigitChars (ds : List Char) (n : Nat) : n ≤ Nat.ofDigitChars 10 ds n := by
  induction ds generalizing n with
  | nil => exact Nat.le_refl _
  | cons c more ih =>
    rw [Nat.ofDigitChars_cons]
    have hmore := ih (10 * n + (c.toNat - '0'.toNat))
    omega

theorem takeDigits_digits (ds : List Char) (hds : ∀ c ∈ ds, c.isDigit = true) (n : Nat)
    (hbound : Nat.ofDigitChars 10 ds n < wordBound) {rest : List Char} (hrest : EndsNumber rest) :
    takeDigits n (ds ++ rest) = (Nat.ofDigitChars 10 ds n, ds.length, rest) := by
  induction ds generalizing n with
  | nil =>
    cases rest with
    | nil => rfl
    | cons c more =>
      obtain ⟨hdigit, -⟩ := hrest c rfl
      rw [List.nil_append, takeDigits, if_neg (by simp [hdigit])]
      rfl
  | cons c more ih =>
    rw [Nat.ofDigitChars_cons] at hbound ⊢
    have hfits := Nat.lt_of_le_of_lt (le_ofDigitChars more _) hbound
    have hc : c.isDigit = true := hds c (List.mem_cons_self ..)
    have hmore (d : Char) (hd : d ∈ more) : d.isDigit = true := hds d (List.mem_cons_of_mem _ hd)
    rw [List.cons_append, takeDigits, if_pos ⟨hc, hfits⟩, ih hmore _ hbound]
    rfl

theorem numberTail_ends {rest : List Char} (hrest : EndsNumber rest) (negative : Bool) (n : Nat)
    (mark : Mark) : numberTail negative n ⟨rest, mark⟩ =
      if !negative then .ok (.integer n, ⟨rest, mark⟩)
      else if n = 0 ∨ Number.twoTo 63 < n then .ok (.float (-(Float.ofNat n)), ⟨rest, mark⟩)
      else .ok (.integer (-n), ⟨rest, mark⟩) := by
  have hexponent : atExponent rest = false := by
    cases rest with
    | nil => rfl
    | cons c more =>
      obtain ⟨-, -, he, hE⟩ := hrest c rfl
      simp [atExponent, he, hE]
  unfold numberTail
  split
  · rename_i heq
    obtain ⟨-, hpoint, -⟩ := hrest '.' (by simp_all)
    contradiction
  · rw [if_neg (by simp [hexponent])]

theorem EndsNumber.not_digit {rest : List Char} (hrest : EndsNumber rest) :
    rest.head?.any Char.isDigit = false := by
  cases rest with
  | nil => rfl
  | cons c more => exact (hrest c rfl).1

theorem isDigit_of_mem_decimalDigits {n : Nat} {c : Char} (h : c ∈ Number.decimalDigits n) :
    c.isDigit = true :=
  Nat.isDigit_of_mem_toDigits (by decide) (by decide) h

theorem decimalDigits_of_pos {n : Nat} (hpos : 0 < n) :
    ∃ c more, Number.decimalDigits n = c :: more ∧ c ≠ '0' := by
  induction n using Nat.strongRecOn with | ind n ih
  by_cases hn : n < 10
  · refine ⟨n.digitChar, [], Nat.toDigits_of_lt_base hn, ?_⟩
    rw [ne_eq, Nat.digitChar_eq_zero]
    omega
  · obtain ⟨c, more, hdigits, hc⟩ := ih (n / 10) (by omega) (by omega)
    refine ⟨c, more ++ [(n % 10).digitChar], ?_, hc⟩
    show Nat.toDigits 10 n = _
    rw [Nat.toDigits_of_base_le (by decide) (by omega)]
    exact congrArg (· ++ [(n % 10).digitChar]) hdigits

theorem readNumber_digits {rest : List Char} (hrest : EndsNumber rest) (negative : Bool) {n : Nat}
    (hn : n < wordBound) (mark : Mark) :
    ∃ mark', readNumber negative ⟨Number.decimalDigits n ++ rest, mark⟩ =
      numberTail negative n ⟨rest, mark'⟩ := by
  obtain rfl | hpos := Nat.eq_zero_or_pos n
  · refine ⟨mark.next '0', ?_⟩
    show readNumber negative ⟨'0' :: rest, mark⟩ = _
    simp only [readNumber, hrest.not_digit, Bool.false_eq_true, if_false]
    rfl
  · obtain ⟨c, more, hdigits, hc⟩ := decimalDigits_of_pos hpos
    have hvalue : Nat.ofDigitChars 10 (Number.decimalDigits n) 0 = n :=
      Nat.ofDigitChars_ten_toDigits
    have htaken := takeDigits_digits (Number.decimalDigits n)
      (fun _ => isDigit_of_mem_decimalDigits) 0 (by rwa [hvalue]) hrest
    have hdigit : c.isDigit = true :=
      isDigit_of_mem_decimalDigits (hdigits ▸ List.mem_cons_self ..)
    refine ⟨⟨mark.line, mark.column + (Number.decimalDigits n).length⟩, ?_⟩
    rw [hvalue] at htaken
    unfold readNumber
    split
    · rename_i heq
      rw [hdigits] at heq
      contradiction
    · rename_i heq
      rw [hdigits] at heq
      exact absurd (List.cons.inj heq).1 hc
    · rename_i heq
      rw [hdigits] at heq
      obtain ⟨rfl, -⟩ := List.cons.inj heq
      simp only [hdigit, htaken, hrest.not_digit, Input.drop, List.drop_left, Bool.not_true,
        Bool.false_eq_true, if_false]

theorem skipSpaces_cons {c : Char} (hc : isSpace c = false) (more : List Char) (mark : Mark) :
    skipSpaces (c :: more) mark = ⟨c :: more, mark⟩ := by
  simp [skipSpaces, hc]

theorem not_isSpace_of_isDigit {c : Char} (hc : c.isDigit = true) : isSpace c = false := by
  simp only [isSpace, Bool.or_eq_false_iff, beq_eq_false_iff_ne]
  refine ⟨⟨⟨?_, ?_⟩, ?_⟩, ?_⟩ <;> (rintro rfl; contradiction)

theorem readValue_digit {c : Char} (hc : c.isDigit = true) (more : List Char) (levels : Nat)
    (mark : Mark) : readValue levels ⟨c :: more, mark⟩ =
      (readNumber false ⟨c :: more, mark⟩).map fun (n, i) => (.number n, i) := by
  unfold readValue
  simp only [Input.trimmed, skipSpaces_cons (not_isSpace_of_isDigit hc)]
  split
  case h_1 heq => contradiction
  all_goals rename_i heq; obtain ⟨rfl, -⟩ := List.cons.inj heq
  case h_9 => rw [if_pos hc]
  all_goals contradiction

theorem decimalDigits_cons (n : Nat) :
    ∃ c more, Number.decimalDigits n = c :: more ∧ c.isDigit = true := by
  obtain rfl | hpos := Nat.eq_zero_or_pos n
  · exact ⟨'0', [], rfl, rfl⟩
  · obtain ⟨c, more, hdigits, -⟩ := decimalDigits_of_pos hpos
    exact ⟨c, more, hdigits, isDigit_of_mem_decimalDigits (hdigits ▸ List.mem_cons_self ..)⟩

/-- An integer, read where it begins. -/
theorem readValue_integer {i : Int} (hi : i.natAbs < Number.exactBound) {rest : List Char}
    (hrest : EndsNumber rest) (levels : Nat) (mark : Mark) :
    ∃ mark', readValue levels ⟨numberText (.integer i) ++ rest, mark⟩ =
      .ok (.number (.integer i), ⟨rest, mark'⟩) := by
  have hword : Number.exactBound < Number.twoTo 63 ∧ Number.twoTo 63 < wordBound := by decide
  by_cases hneg : i < 0
  · obtain ⟨mark', hread⟩ := readNumber_digits hrest true (n := i.natAbs) (by omega) (mark.next '-')
    refine ⟨mark', ?_⟩
    rw [numberTail_ends hrest, if_neg (by decide), if_neg (by omega)] at hread
    simp only [numberText, Number.integerText, if_pos hneg, String.toList_ofList, List.cons_append]
    unfold readValue
    simp only [Input.trimmed, skipSpaces_cons (by decide : isSpace '-' = false), Input.advance,
      hread, Except.map, show -(i.natAbs : Int) = i by omega]
  · obtain ⟨mark', hread⟩ := readNumber_digits hrest false (n := i.natAbs) (by omega) mark
    refine ⟨mark', ?_⟩
    rw [numberTail_ends hrest, if_pos (by decide)] at hread
    simp only [numberText, Number.integerText, if_neg hneg, String.toList_ofList]
    obtain ⟨c, more, hdigits, hc⟩ := decimalDigits_cons i.natAbs
    rw [hdigits, List.cons_append] at hread ⊢
    rw [readValue_digit hc, hread]
    simp only [Except.map, show (i.natAbs : Int) = i by omega]

end ModuleLoader.Json
