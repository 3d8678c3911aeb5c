import ModuleLoader.Proofs.Literals

/-! Texts that are tokens on their own. Nothing reaches over a blank or a newline: what is scanned
as a token in front of one is scanned so whatever comes behind it. So texts that are tokens on their
own are read as these tokens when they are joined by blanks and newlines. -/
namespace ModuleLoader.Script

/-- Between two tokens, this keeps them apart. -/
def IsSeparator (c : Char) : Prop :=
  c = ' ' ∨ c = '\n'

/-- The source consists of the texts, with a separator between neighbours. -/
inductive Joined : List String → String → Prop where
  | nil : Joined [] ""
  | single (x : String) : Joined [x] x
  | cons {sep : Char} {x y : String} {ys : List String} {source : String} (hsep : IsSeparator sep)
      (h : Joined (y :: ys) source) :
      Joined (x :: y :: ys) (x ++ String.singleton sep ++ source)

/-- On its own, the text is read as this token, which takes up all of it. -/
def Lexes (x : String) (t : Token) : Prop :=
  ∃ span last, tokenize x = .ok [⟨t, span⟩, last] ∧ span.start = 0 ∧ span.stop = x.utf8ByteSize

/-! ### Lengths -/

variable {sep : Char}

theorem takeWhile_append_cons {p : Char → Bool} (hsep : p sep = false) (cs rest : List Char) :
    (cs ++ sep :: rest).takeWhile p = cs.takeWhile p := by
  induction cs with
  | nil => rw [List.nil_append, List.takeWhile_cons_of_neg (by simp [hsep]), List.takeWhile_nil]
  | cons c cs ih => rw [List.cons_append, List.takeWhile_cons, List.takeWhile_cons, ih]

theorem length_takeWhile_le (p : Char → Bool) (cs : List Char) :
    (cs.takeWhile p).length ≤ cs.length :=
  (List.takeWhile_prefix p).length_le

/-- The length of a front part of a text, which does not reach over the separator, whatever comes
behind it. -/
structure Stops (sep : Char) (length : List Char → Nat) : Prop where
  append (cs rest : List Char) : length (cs ++ sep :: rest) = length cs
  le (cs : List Char) : length cs ≤ cs.length

theorem stops_takeWhile {p : Char → Bool} (hsep : p sep = false) :
    Stops sep fun cs => (cs.takeWhile p).length :=
  ⟨fun cs rest => by rw [takeWhile_append_cons hsep], length_takeWhile_le p⟩

/-- A part, and another one behind it. -/
theorem Stops.then {first second : List Char → Nat} (h : Stops sep first) (h' : Stops sep second) :
    Stops sep fun cs => first cs + second (cs.drop (first cs)) := by
  constructor
  · intro cs rest
    rw [h.append, List.drop_append_of_le_length (h.le cs), h'.append]
  · intro cs
    have hle := h.le cs
    have hle' := h'.le (cs.drop (first cs))
    rw [List.length_drop] at hle'
    omega

namespace IsSeparator

variable (hsep : IsSeparator sep)

include hsep

theorem isGap : isGap sep = true := by
  obtain rfl | rfl := hsep <;> rfl

theorem isNamePart : isNamePart sep = false := by
  obtain rfl | rfl := hsep <;> rfl

theorem isDigit : sep.isDigit = false := by
  obtain rfl | rfl := hsep <;> rfl

theorem isHexDigit : Text.isHexDigit sep = false := by
  obtain rfl | rfl := hsep <;> rfl

theorem notMem_text (s : Symbol) : sep ∉ s.text.toList := by
  obtain rfl | rfl := hsep <;> cases s <;> decide

end IsSeparator

/-! ### Numbers -/

theorem fractionLength_of_ne {c : Char} (hc : c ≠ '.') (cs : List Char) :
    fractionLength (c :: cs) = 0 := by
  unfold fractionLength
  split
  · simp_all
  · rfl

theorem stops_fractionLength (hsep : IsSeparator sep) : Stops sep fractionLength := by
  have hpoint : sep ≠ '.' := by obtain rfl | rfl := hsep <;> decide
  constructor
  · intro cs rest
    cases cs with
    | nil => exact fractionLength_of_ne hpoint rest
    | cons c cs =>
      by_cases hc : c = '.'
      · subst hc
        simp only [List.cons_append, fractionLength, takeWhile_append_cons hsep.isDigit]
      · rw [List.cons_append, fractionLength_of_ne hc, fractionLength_of_ne hc]
  · intro cs
    unfold fractionLength
    split
    · rename_i rest
      have hle := length_takeWhile_le Char.isDigit rest
      dsimp only
      split <;> simp only [List.length_cons] <;> omega
    · exact Nat.zero_le _

/-- The length of the sign of an exponent, if it has one. -/
def signLength : List Char → Nat
  | '+' :: _ => 1
  | '-' :: _ => 1
  | _ => 0

theorem stops_signLength (hsep : IsSeparator sep) : Stops sep signLength := by
  have hnone (rest : List Char) : signLength (sep :: rest) = 0 := by
    obtain rfl | rfl := hsep <;> rfl
  constructor
  · intro cs rest
    cases cs with
    | nil => exact hnone rest
    | cons c cs =>
      unfold signLength
      split <;> split <;> simp_all
  · intro cs
    unfold signLength
    split <;> simp

theorem exponentLength_cons (mark : Char) (cs : List Char) : exponentLength (mark :: cs) =
    if mark = 'e' ∨ mark = 'E' then
      let ds := (cs.drop (signLength cs)).takeWhile Char.isDigit
      if ds.isEmpty then 0 else ds.length + signLength cs + 1
    else 0 := by
  cases cs with
  | nil => rfl
  | cons c cs =>
    by_cases hplus : c = '+'
    · subst hplus
      rfl
    · by_cases hminus : c = '-'
      · subst hminus
        rfl
      · simp [exponentLength, signLength, hplus, hminus]

theorem stops_exponentLength (hsep : IsSeparator sep) : Stops sep exponentLength := by
  have hmark : ¬ (sep = 'e' ∨ sep = 'E') := by obtain rfl | rfl := hsep <;> decide
  have hsign := stops_signLength hsep
  constructor
  · intro cs rest
    cases cs with
    | nil => exact if_neg hmark
    | cons c cs =>
      rw [List.cons_append, exponentLength_cons, exponentLength_cons, hsign.append,
        List.drop_append_of_le_length (hsign.le cs), takeWhile_append_cons hsep.isDigit]
  · intro cs
    cases cs with
    | nil => exact Nat.le_refl 0
    | cons c cs =>
      have hdigits := length_takeWhile_le Char.isDigit (cs.drop (signLength cs))
      have hle := hsign.le cs
      rw [List.length_drop] at hdigits
      rw [exponentLength_cons, List.length_cons]
      dsimp only
      split_ifs <;> omega

theorem stops_decimalLength (hsep : IsSeparator sep) : Stops sep decimalLength :=
  ((stops_takeWhile hsep.isDigit).then (stops_fractionLength hsep)).then (stops_exponentLength hsep)

theorem hexDigits?_append (hsep : IsSeparator sep) (cs rest : List Char) :
    hexDigits? (cs ++ sep :: rest) = hexDigits? cs := by
  have hmark : ¬ (sep = 'x' ∨ sep = 'X') := by obtain rfl | rfl := hsep <;> decide
  cases cs with
  | nil => exact if_neg fun h => hmark h.1
  | cons c cs => simp only [List.cons_append, hexDigits?, takeWhile_append_cons hsep.isHexDigit]

theorem length_of_hexDigits? {cs ds : List Char} (h : hexDigits? cs = some ds) :
    ds.length + 1 ≤ cs.length := by
  cases cs with
  | nil => contradiction
  | cons c cs =>
    simp only [hexDigits?, Option.ite_none_right_eq_some, Option.some_inj] at h
    rw [← h.2]
    exact Nat.succ_le_succ (length_takeWhile_le _ cs)

theorem scanNumber_append (hsep : IsSeparator sep) (c : Char) (cs rest : List Char) :
    scanNumber c (cs ++ sep :: rest) = scanNumber c cs ∧ (scanNumber c cs).2 ≤ cs.length := by
  have hdecimal := stops_decimalLength hsep
  unfold scanNumber
  rw [hexDigits?_append hsep]
  split
  · rename_i ds hds
    have hle : ds.length + 1 ≤ cs.length := by
      split at hds
      · exact length_of_hexDigits? hds
      · contradiction
    rw [List.take_append_of_le_length hle]
    refine ⟨rfl, ?_⟩
    dsimp only
    split
    · split <;> exact hle
    · exact hle
  · rw [hdecimal.append]
    dsimp only
    rw [List.take_append_of_le_length (hdecimal.le cs)]
    refine ⟨rfl, ?_⟩
    split <;> exact hdecimal.le cs

/-! ### Strings and symbols -/

theorem stringBody_append {quote : Char} (hslash : quote ≠ '\\') {cs : List Char}
    (h : (stringBody quote cs).2 = true) (more : List Char) :
    stringBody quote (cs ++ more) = stringBody quote cs ∧
      (stringBody quote cs).1 < cs.length := by
  fun_induction stringBody quote cs with
  | case1 | case2 | case5 => contradiction
  | case3 c rest hline n closed hbody ih =>
    rw [hbody] at ih
    obtain ⟨happend, hlt⟩ := ih h
    refine ⟨?_, Nat.add_lt_add_right hlt 2⟩
    rw [List.cons_append, List.cons_append, stringBody_escape hline, happend]
  | case4 => exact ⟨stringBody_close hslash _, Nat.succ_pos _⟩
  | case6 c rest _ hquote hother n closed hbody ih =>
    rw [hbody] at ih
    obtain ⟨happend, hlt⟩ := ih h
    obtain ⟨hc, hline⟩ := not_or.mp hother
    refine ⟨?_, Nat.succ_lt_succ hlt⟩
    rw [List.cons_append, stringBody_plain hquote hc hline, happend]

/-- A literal ends with its closing quote, whatever comes behind. -/
theorem scanString_append {quote : Char} (hslash : quote ≠ '\\') {cs : List Char} {t : Token}
    (h : (scanString quote cs).1 = .token t) (more : List Char) :
    scanString quote (cs ++ more) = scanString quote cs ∧
      (scanString quote cs).2 ≤ cs.length := by
  have hclosed : (stringBody quote cs).2 = true := by
    unfold scanString at h
    dsimp only at h
    split at h
    · assumption
    · contradiction
  obtain ⟨happend, hlt⟩ := stringBody_append hslash hclosed more
  unfold scanString
  rw [happend]
  dsimp only
  rw [List.take_append_of_le_length (Nat.le_of_lt hlt), if_pos hclosed]
  refine ⟨rfl, ?_⟩
  split <;> exact hlt

theorem prefix_append_cons_iff {text cs rest : List Char} (hsep : sep ∉ text) :
    text <+: cs ++ sep :: rest ↔ text <+: cs := by
  refine ⟨fun h => ?_, fun h => h.trans (List.prefix_append _ _)⟩
  obtain h | ⟨more, rfl⟩ := List.prefix_or_prefix_of_prefix h (List.prefix_append cs (sep :: rest))
  · exact h
  · rw [List.prefix_append_right_inj] at h
    cases more with
    | nil => exact (List.append_nil cs).symm ▸ List.prefix_refl cs
    | cons d more =>
      obtain ⟨rfl, -⟩ := List.cons_prefix_cons.mp h
      simp at hsep

theorem symbolAt?_append (hsep : IsSeparator sep) (cs rest : List Char) :
    symbolAt? (cs ++ sep :: rest) = symbolAt? cs := by
  have hsame (s : Symbol) : s.text.toList.isPrefixOf (cs ++ sep :: rest) =
      s.text.toList.isPrefixOf cs := by
    rw [Bool.eq_iff_iff, List.isPrefixOf_iff_prefix, List.isPrefixOf_iff_prefix,
      prefix_append_cons_iff (hsep.notMem_text s)]
  simp only [symbolAt?, hsame]

theorem length_of_symbolAt? {cs : List Char} {s : Symbol} (h : symbolAt? cs = some s) :
    s.text.length ≤ cs.length := by
  have hfits := List.find?_some h
  rw [List.isPrefixOf_iff_prefix] at hfits
  rw [← String.length_toList]
  exact hfits.length_le

/-! ### Tokens -/

theorem head?_append_cons {d : Char} (hd : sep ≠ d) (cs rest : List Char) :
    (cs ++ sep :: rest).head? = some d ↔ cs.head? = some d := by
  cases cs <;> simp [hd]

/-- A token does not reach over a separator, whatever comes behind that. -/
theorem scan_append (hsep : IsSeparator sep) {c : Char} {cs : List Char} {t : Token}
    (h : (scan c cs).1 = .token t) (rest : List Char) :
    scan c (cs ++ sep :: rest) = scan c cs ∧ (scan c cs).2 ≤ cs.length := by
  have hslash : sep ≠ '/' := by obtain rfl | rfl := hsep <;> decide
  have hstar : sep ≠ '*' := by obtain rfl | rfl := hsep <;> decide
  unfold scan at h ⊢
  simp only [head?_append_cons hslash, head?_append_cons hstar]
  by_cases hgap : isGap c = true
  · simp only [if_pos hgap, reduceCtorEq] at h
  simp only [if_neg hgap] at h ⊢
  by_cases hline : c = '/' ∧ cs.head? = some '/'
  · simp only [if_pos hline, reduceCtorEq] at h
  simp only [if_neg hline] at h ⊢
  by_cases hblock : c = '/' ∧ cs.head? = some '*'
  · simp only [if_pos hblock, reduceCtorEq] at h
  simp only [if_neg hblock] at h ⊢
  by_cases hname : isNameStart c = true
  · simp only [if_pos hname, takeWhile_append_cons hsep.isNamePart]
    exact ⟨trivial, length_takeWhile_le _ cs⟩
  simp only [if_neg hname] at h ⊢
  by_cases hdigit : c.isDigit = true
  · simp only [if_pos hdigit]
    exact scanNumber_append hsep c cs rest
  simp only [if_neg hdigit] at h ⊢
  by_cases hquote : c = '"' ∨ c = '\''
  · simp only [if_pos hquote] at h ⊢
    exact scanString_append (by obtain rfl | rfl := hquote <;> decide) h _
  simp only [if_neg hquote]
  rw [← List.cons_append, symbolAt?_append hsep]
  refine ⟨rfl, ?_⟩
  split
  · rename_i s hs
    have hle := length_of_symbolAt? hs
    rw [List.length_cons] at hle
    exact Nat.sub_le_of_le_add hle
  · exact Nat.zero_le _

theorem isGap_of_scan {c : Char} {cs : List Char} {t : Token} (h : (scan c cs).1 = .token t) :
    isGap c = false := by
  cases hgap : isGap c with
  | false => rfl
  | true =>
    rw [scan, if_pos hgap] at h
    contradiction

theorem mem_tokensOf {ps : List (Spanned Lexeme)} {u : Spanned Token} (h : u ∈ tokensOf ps) :
    ⟨.token u.value, u.span⟩ ∈ ps := by
  obtain ⟨⟨value, span⟩, hp, hu⟩ := List.mem_filterMap.mp h
  cases value with
  | token t =>
    obtain rfl := Option.some.inj hu
    exact hp
  | gap | fault => contradiction

/-- A token that takes up a whole text is what is scanned at its front, and reaches to its end. -/
theorem scan_of_tokensOf {cs : List Char} {u : Spanned Token}
    (hfaults : faultsOf (finds (.behind []) cs) = [])
    (htokens : tokensOf (finds (.behind []) cs) = [u]) (hstart : u.span.start = 0)
    (hstop : u.span.stop = textSize cs) :
    ∃ c rest, cs = c :: rest ∧ scan c rest = (.token u.value, rest.length) := by
  cases cs with
  | nil =>
    rw [finds_nil] at htokens
    contradiction
  | cons c rest =>
    cases hscan : scan c rest with | mk lexeme n => ?_
    cases lexeme with
    | gap =>
      -- A gap in front would move the token off the start.
      rw [finds_gap [] hscan] at htokens
      have hmem := mem_tokensOf (htokens ▸ List.mem_singleton_self _)
      have hle := (laid_finds _ _).le_start _ hmem
      have hpos : 0 < textSize (c :: rest.take n) := textSize_pos (List.cons_ne_nil _ _)
      rw [List.nil_append] at hle
      dsimp only at hle
      omega
    | fault f =>
      rw [finds_cons, hscan] at hfaults
      contradiction
    | token t =>
      have hblank : IsSeparator ' ' := .inl rfl
      have hle := (scan_append hblank (congrArg Prod.fst hscan) []).2
      rw [hscan] at hle
      rw [finds_token [] hscan] at htokens
      obtain rfl := (List.cons.inj htokens).1
      rw [Span.stop_of, textSize_nil, Nat.zero_add] at hstop
      have hrest : rest.drop n = [] := by
        by_contra hne
        have hpos := textSize_pos hne
        rw [← List.take_append_drop n rest, textSize_cons, textSize_cons, textSize_append,
          List.take_append_drop] at hstop
        omega
      obtain rfl := Nat.le_antisymm hle (List.drop_eq_nil_iff.mp hrest)
      exact ⟨c, rest, rfl, hscan⟩

theorem lexes_iff {x : String} {t : Token} :
    Lexes x t ↔ ∃ c cs, x.toList = c :: cs ∧ scan c cs = (.token t, cs.length) := by
  constructor
  · rintro ⟨span, last, htokenize, hstart, hstop⟩
    by_cases hfaults : faultsOf (finds .start x.toList) = []
    · rw [tokenize_ok hfaults, Except.ok.injEq] at htokenize
      have hsplit : [⟨t, span⟩, last] = [⟨t, span⟩] ++ [last] := rfl
      have htokens := (List.append_inj' (htokenize.trans hsplit) rfl).1
      rw [← textSize_toList] at hstop
      rw [Position.start_eq_behind] at hfaults htokens
      exact scan_of_tokensOf hfaults htokens hstart hstop
    · rw [tokenize_error hfaults] at htokenize
      contradiction
  · rintro ⟨c, cs, hx, hscan⟩
    refine ⟨_, _, tokenize_of_scan hx hscan, rfl, ?_⟩
    rw [Span.stop_of, textSize_nil, Nat.zero_add, textSize_toList]

/-! ### Joined texts -/

theorem Joined.eq_append {y : String} {ys : List String} {source : String}
    (h : Joined (y :: ys) source) : ∃ rest, source.toList = y.toList ++ rest := by
  cases h with
  | single => exact ⟨[], (List.append_nil _).symm⟩
  | @cons sep _ z zs source hsep h =>
    refine ⟨sep :: source.toList, ?_⟩
    simp only [String.toList_append, String.toList_singleton, List.append_assoc, List.cons_append,
      List.nil_append]

/-- Behind any text, the finds of joined tokens are these tokens, each with the span of its text. -/
theorem finds_joined {xs : List String} {ts : List Token} {source : String}
    (h : Joined xs source) (hxs : List.Forall₂ Lexes xs ts) (before : List Char) :
    ∃ us : List (Spanned Token),
      finds (.behind before) source.toList = us.map (fun u => ⟨.token u.value, u.span⟩) ∧
      us.map Spanned.value = ts ∧
      us.map (fun u => u.span.slice (String.ofList (before ++ source.toList))) = xs := by
  induction h generalizing ts before with
  | nil =>
    cases hxs
    exact ⟨[], finds_nil _, rfl, rfl⟩
  | single x =>
    obtain ⟨t, ts, hx, hnone, rfl⟩ := List.forall₂_cons_left_iff.mp hxs
    cases hnone
    obtain ⟨c, cs, hx, hscan⟩ := lexes_iff.mp hx
    have hslice := Span.slice_of before x.toList []
    rw [List.append_nil, String.ofList_toList] at hslice
    refine ⟨[⟨t, .of before x.toList⟩], ?_, rfl, congrArg (fun y => [y]) hslice⟩
    rw [hx, finds_token before hscan, List.take_length, List.drop_length, finds_nil]
    rfl
  | @cons sep x y ys source hsep h ih =>
    obtain ⟨t, ts, hx, hrest, rfl⟩ := List.forall₂_cons_left_iff.mp hxs
    obtain ⟨u, us, hy, -⟩ := List.forall₂_cons_left_iff.mp hrest
    obtain ⟨c, cs, hx, hscan⟩ := lexes_iff.mp hx
    obtain ⟨d, ds, hy, hscan'⟩ := lexes_iff.mp hy
    obtain ⟨more, hsource⟩ := h.eq_append
    have happend : (x ++ String.singleton sep ++ source).toList =
        x.toList ++ sep :: source.toList := by
      simp only [String.toList_append, String.toList_singleton, List.append_assoc,
        List.cons_append, List.nil_append]
    have hgap : scan sep source.toList = (.gap, 0) := by
      have hd : isGap d = false := isGap_of_scan (by rw [hscan'])
      rw [hsource, hy, scan, if_pos hsep.isGap, List.cons_append,
        List.takeWhile_cons_of_neg (by simp [hd]), List.length_nil]
    have htoken : scan c (cs ++ sep :: source.toList) = (.token t, cs.length) := by
      rw [(scan_append hsep (by rw [hscan]) _).1, hscan]
    obtain ⟨us', hfinds, hvalues, hslices⟩ := ih hrest (before ++ x.toList ++ [sep])
    refine ⟨⟨t, .of before x.toList⟩ :: us', ?_, by rw [List.map_cons, hvalues], ?_⟩
    · rw [happend, hx, List.cons_append, finds_token before htoken, List.take_left,
        List.drop_left, finds_gap _ hgap, List.take_zero, List.drop_zero, ← hx, hfinds]
      rfl
    · rw [happend, List.map_cons, ← List.append_assoc, Span.slice_of, String.ofList_toList]
      rw [List.append_assoc _ [sep], List.singleton_append] at hslices
      rw [hslices]

/-- Texts that are tokens on their own, joined by single blanks and newlines, are read as these
tokens in their order, and the span of each slices its text out of the source. -/
theorem tokenize_joined {xs : List String} {ts : List Token} {source : String}
    (h : Joined xs source) (hxs : List.Forall₂ Lexes xs ts) :
    ∃ us, tokenize source = .ok (us ++ [⟨.finish, .of source.toList []⟩]) ∧
      us.map Spanned.value = ts ∧ us.map (fun u => u.span.slice source) = xs := by
  obtain ⟨us, hfinds, hvalues, hslices⟩ := finds_joined h hxs []
  rw [← Position.start_eq_behind] at hfinds
  rw [List.nil_append, String.ofList_toList] at hslices
  have hfaults : faultsOf (us.map fun u => ⟨.token u.value, u.span⟩) = [] := by
    rw [faultsOf, List.filterMap_map]
    exact List.filterMap_eq_nil_iff.mpr fun u _ => rfl
  have htokens : tokensOf (us.map fun u => ⟨.token u.value, u.span⟩) = us := by
    rw [tokensOf, List.filterMap_map]
    exact List.filterMap_some
  refine ⟨us, ?_, hvalues, hslices⟩
  rw [tokenize_ok (hfinds ▸ hfaults), hfinds, htokens]

/-- Two signs that would be one if they were not kept apart, a word, and a string with a blank. -/
theorem tokenize_joined_sample :
    Joined ["+", "+", "typeof", "'a b'"] "+ +\ntypeof 'a b'" ∧
    List.Forall₂ Lexes ["+", "+", "typeof", "'a b'"]
      [.symbol .plus, .symbol .plus, .keyword .typeof, .string "a b"] ∧
    ∃ us, tokenize "+ +\ntypeof 'a b'" =
        .ok (us ++ [⟨.finish, .of "+ +\ntypeof 'a b'".toList []⟩]) ∧
      us.map Spanned.value =
        [.symbol .plus, .symbol .plus, .keyword .typeof, .string "a b"] ∧
      us.map (fun u => u.span.slice "+ +\ntypeof 'a b'") = ["+", "+", "typeof", "'a b'"] := by
  have hjoined : Joined ["+", "+", "typeof", "'a b'"] "+ +\ntypeof 'a b'" :=
    .cons (.inl rfl) (.cons (.inr rfl) (.cons (.inl rfl) (.single _)))
  have hlexes : List.Forall₂ Lexes ["+", "+", "typeof", "'a b'"]
      [.symbol .plus, .symbol .plus, .keyword .typeof, .string "a b"] := by
    refine .cons ?_ (.cons ?_ (.cons ?_ (.cons ?_ .nil)))
    all_goals exact lexes_iff.mpr ⟨_, _, rfl, rfl⟩
  exact ⟨hjoined, hlexes, tokenize_joined hjoined hlexes⟩

end ModuleLoader.Script
