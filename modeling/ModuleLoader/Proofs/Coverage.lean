import Mathlib.Data.List.Basic
import Mathlib.Data.List.TakeWhile
import ModuleLoader.Proofs.Positions

/-! What becomes of every character of a source. Tokens and faults lie one behind the other, and all
that is between them is blanks and comments. The laws assume nothing of the source. -/
namespace ModuleLoader.Script

/-- A text that is no part of a token, given the text behind it: blanks, a comment up to the end of
its line, or a block comment, which runs to the end of the source if nothing closes it. -/
inductive Gap : List Char → List Char → Prop where
  | blanks {text rest : List Char} (h : ∀ c ∈ text, c ∈ [' ', '\t', '\r', '\n', '\x0c']) :
      Gap text rest
  | line {body rest : List Char} (hbody : '\n' ∉ body) (hrest : ∀ c ∈ rest.head?, c = '\n') :
      Gap ('/' :: '/' :: body) rest
  | block {body rest : List Char} (h : ¬ ['*', '/'] <:+: body ++ ['*']) :
      Gap ('/' :: '*' :: (body ++ ['*', '/'])) rest
  | unclosed {body : List Char} (h : ¬ ['*', '/'] <:+: body) : Gap ('/' :: '*' :: body) []

/-- The piece of text is a token, though not the closing one, or a fault. -/
def Lexeme.isFind : Lexeme → Bool
  | gap => false
  | token t => !t.isFinish
  | fault _ => true

/-- Behind a text, the rest of a source is made of these finds and of gaps. -/
inductive Laid : List Char → List Char → List (Spanned Lexeme) → Prop where
  | nil {before : List Char} : Laid before [] []
  | gap {before text rest : List Char} {finds : List (Spanned Lexeme)} (hne : text ≠ [])
      (h : Gap text rest) (hrest : Laid (before ++ text) rest finds) :
      Laid before (text ++ rest) finds
  | find {before text rest : List Char} {x : Spanned Lexeme} {finds : List (Spanned Lexeme)}
      (hne : text ≠ []) (hx : x.value.isFind = true) (hspan : x.span = .of before text)
      (hrest : Laid (before ++ text) rest finds) : Laid before (text ++ rest) (x :: finds)

/-! ### What is scanned -/

theorem take_length_takeWhile (p : Char → Bool) (cs : List Char) :
    cs.take (cs.takeWhile p).length = cs.takeWhile p :=
  (List.prefix_iff_eq_take.mp (List.takeWhile_prefix p)).symm

theorem drop_length_takeWhile (p : Char → Bool) (cs : List Char) :
    cs.drop (cs.takeWhile p).length = cs.dropWhile p := by
  have h : cs.takeWhile p ++ cs.drop (cs.takeWhile p).length =
      cs.takeWhile p ++ cs.dropWhile p := by
    rw [List.takeWhile_append_dropWhile]
    exact (congrArg (· ++ _) (take_length_takeWhile p cs)).symm.trans (List.take_append_drop ..)
  exact List.append_cancel_left h

/-- A block comment ends with the first mark that closes it. -/
theorem commentLength_spec (cs : List Char) :
    (∃ body, cs.take (commentLength cs) = body ++ ['*', '/'] ∧
      ¬ ['*', '/'] <:+: body ++ ['*']) ∨
    commentLength cs = cs.length ∧ ¬ ['*', '/'] <:+: cs := by
  fun_induction commentLength cs with
  | case1 => exact .inr ⟨rfl, by simp⟩
  | case2 rest => exact .inl ⟨[], rfl, by decide⟩
  | case3 c rest hclose ih =>
    -- The mark does not begin here, so it begins in the body if it is there at all.
    obtain ⟨body, hbody, hfirst⟩ | ⟨hlength, hnone⟩ := ih
    · refine .inl ⟨c :: body, by rw [List.take_succ_cons, hbody, List.cons_append], ?_⟩
      rw [List.cons_append, List.infix_cons_iff, not_or]
      refine ⟨fun hprefix => ?_, hfirst⟩
      obtain ⟨hstar, hslash⟩ := List.cons_prefix_cons.mp hprefix
      cases body with
      | nil => simp at hslash
      | cons d body =>
        obtain ⟨rfl, -⟩ := List.cons_prefix_cons.mp hslash
        cases rest with
        | nil => simp at hbody
        | cons e rest =>
          cases hn : commentLength (e :: rest) with
          | zero => simp [hn] at hbody
          | succ n =>
            rw [hn, List.take_succ_cons, List.cons_append, List.cons.injEq] at hbody
            exact hclose rest hstar.symm (by rw [hbody.1])
    · refine .inr ⟨congrArg (· + 1) hlength, ?_⟩
      rw [List.infix_cons_iff, not_or]
      refine ⟨fun hprefix => ?_, hnone⟩
      obtain ⟨rfl, d, hd⟩ := List.cons_prefix_cons.mp hprefix
      exact hclose d rfl hd.symm

theorem isFind_scanNumber (c : Char) (cs : List Char) : (scanNumber c cs).1.isFind = true := by
  unfold scanNumber
  dsimp only
  split
  · split
    · split <;> rfl
    · rfl
  · split <;> rfl

theorem isFind_scanString (quote : Char) (cs : List Char) :
    (scanString quote cs).1.isFind = true := by
  unfold scanString
  dsimp only
  split
  · split <;> rfl
  · rfl

/-- What is scanned as a gap is one. -/
theorem scan_spec (c : Char) (cs : List Char) :
    ((scan c cs).1 = .gap ∧ Gap (c :: cs.take (scan c cs).2) (cs.drop (scan c cs).2)) ∨
      (scan c cs).1.isFind = true := by
  have hblank (d : Char) (hd : isGap d = true) : d ∈ [' ', '\t', '\r', '\n', '\x0c'] := by
    simpa [isGap, or_assoc] using hd
  unfold scan
  split
  case isTrue hc =>
    dsimp only
    rw [take_length_takeWhile]
    refine .inl ⟨rfl, .blanks (List.forall_mem_cons.mpr ⟨hblank c hc, fun d hd => ?_⟩)⟩
    exact hblank d (List.mem_takeWhile_imp hd)
  split
  case isTrue hline =>
    obtain ⟨rfl, hhead⟩ := hline
    obtain ⟨cs, rfl⟩ := List.head?_eq_some_iff.mp hhead
    dsimp only
    rw [take_length_takeWhile, drop_length_takeWhile,
      List.takeWhile_cons_of_pos (by decide), List.dropWhile_cons_of_pos (by decide)]
    refine .inl ⟨rfl, .line (fun hmem => ?_) fun d hd => ?_⟩
    · simpa using List.mem_takeWhile_imp hmem
    · have hnot := List.head?_dropWhile_not (· ≠ '\n') cs
      rw [hd] at hnot
      simpa using hnot
  split
  case isTrue hblock =>
    obtain ⟨rfl, hhead⟩ := hblock
    obtain ⟨cs, rfl⟩ := List.head?_eq_some_iff.mp hhead
    dsimp only [List.tail_cons]
    rw [List.take_succ_cons, List.drop_succ_cons]
    obtain ⟨body, hbody, hfirst⟩ | ⟨hlength, hnone⟩ := commentLength_spec cs
    · rw [hbody]
      exact .inl ⟨rfl, .block hfirst⟩
    · rw [hlength, List.take_length, List.drop_length]
      exact .inl ⟨rfl, .unclosed hnone⟩
  refine .inr ?_
  split
  · unfold wordToken
    dsimp only
    split <;> rfl
  split
  · exact isFind_scanNumber c cs
  split
  · exact isFind_scanString c cs
  split <;> rfl

/-! ### What the pieces are -/

/-- The pieces of a text that are no gaps. -/
def finds (p : Position) (cs : List Char) : List (Spanned Lexeme) :=
  (pieces p cs).filter fun x => x.value.isFind

theorem eq_gap_or_isFind {p : Position} {cs : List Char} {x : Spanned Lexeme}
    (h : x ∈ pieces p cs) : x.value = .gap ∨ x.value.isFind = true := by
  fun_induction pieces p cs with
  | case1 => cases h
  | case2 p c cs lexeme n hscan q ih =>
    obtain rfl | h := List.mem_cons.mp h
    · have hspec := scan_spec c cs
      rw [hscan] at hspec
      exact hspec.imp_left And.left
    · exact ih h

/-- What is read off the pieces, and nothing off the gaps, can be read off the finds. -/
theorem filterMap_finds {α : Type} {f : Spanned Lexeme → Option α}
    (hf : ∀ span, f ⟨.gap, span⟩ = none) (p : Position) (cs : List Char) :
    (finds p cs).filterMap f = (pieces p cs).filterMap f := by
  rw [finds, List.filterMap_filter]
  refine List.filterMap_congr fun x hx => ?_
  obtain hgap | hfind := eq_gap_or_isFind hx
  · obtain ⟨value, span⟩ := x
    obtain rfl : value = .gap := hgap
    exact (hf span).symm
  · rw [if_pos hfind]

theorem tokensOf_finds (p : Position) (cs : List Char) :
    tokensOf (finds p cs) = tokensOf (pieces p cs) :=
  filterMap_finds (fun _ => rfl) p cs

theorem faultsOf_finds (p : Position) (cs : List Char) :
    faultsOf (finds p cs) = faultsOf (pieces p cs) :=
  filterMap_finds (fun _ => rfl) p cs

theorem finds_nil (p : Position) : finds p [] = [] := by
  rw [finds, pieces]
  rfl

theorem finds_cons (before : List Char) (c : Char) (cs : List Char) :
    finds (.behind before) (c :: cs) =
      (if (scan c cs).1.isFind then
        [⟨(scan c cs).1, .of before (c :: cs.take (scan c cs).2)⟩] else []) ++
      finds (.behind (before ++ c :: cs.take (scan c cs).2)) (cs.drop (scan c cs).2) := by
  rw [finds, pieces]
  simp only [Position.after_behind, List.filter_cons, Span.of]
  split <;> rfl

theorem finds_gap {c : Char} {cs : List Char} {n : Nat} (before : List Char)
    (h : scan c cs = (.gap, n)) : finds (.behind before) (c :: cs) =
      finds (.behind (before ++ c :: cs.take n)) (cs.drop n) := by
  rw [finds_cons, h]
  rfl

theorem finds_token {c : Char} {cs : List Char} {t : Token} {n : Nat} (before : List Char)
    (h : scan c cs = (.token t, n)) : finds (.behind before) (c :: cs) =
      ⟨.token t, .of before (c :: cs.take n)⟩ ::
        finds (.behind (before ++ c :: cs.take n)) (cs.drop n) := by
  have hfind := scan_spec c cs
  rw [h] at hfind
  rw [finds_cons, h, if_pos (hfind.resolve_left fun hgap => nomatch hgap.1)]
  rfl

theorem laid_finds (before cs : List Char) : Laid before cs (finds (.behind before) cs) := by
  induction hn : cs.length using Nat.strong_induction_on generalizing before cs with
  | _ n ih =>
    subst hn
    cases cs with
    | nil =>
      rw [finds_nil]
      exact .nil
    | cons c cs =>
      have hsplit : c :: cs = (c :: cs.take (scan c cs).2) ++ cs.drop (scan c cs).2 := by
        rw [List.cons_append, List.take_append_drop]
      have hshorter : (cs.drop (scan c cs).2).length < (c :: cs).length := by
        rw [List.length_drop, List.length_cons]
        omega
      have hrest := ih _ hshorter (before ++ c :: cs.take (scan c cs).2)
        (cs.drop (scan c cs).2) rfl
      rw [finds_cons, hsplit]
      obtain ⟨hvalue, hgap⟩ | hfind := scan_spec c cs
      · rw [hvalue]
        exact .gap (List.cons_ne_nil _ _) hgap hrest
      · rw [if_pos hfind]
        exact .find (List.cons_ne_nil _ _) hfind rfl hrest

/-- Each find is what is scanned where it begins, and takes up what scanning it takes. -/
theorem scanned_finds (before cs : List Char) : ∀ x ∈ finds (.behind before) cs,
    ∃ pre c rest, cs = pre ++ c :: rest ∧ x.value = (scan c rest).1 ∧
      x.span = .of (before ++ pre) (c :: rest.take (scan c rest).2) := by
  induction hn : cs.length using Nat.strong_induction_on generalizing before cs with
  | _ n ih =>
    subst hn
    cases cs with
    | nil =>
      rw [finds_nil]
      exact fun x hx => absurd hx List.not_mem_nil
    | cons c cs =>
      rw [finds_cons]
      intro x hx
      obtain hx | hx := List.mem_append.mp hx
      · have hvalue : x = ⟨(scan c cs).1, .of before (c :: cs.take (scan c cs).2)⟩ := by
          split at hx
          · exact List.mem_singleton.mp hx
          · contradiction
        subst hvalue
        exact ⟨[], c, cs, rfl, rfl, by rw [List.append_nil]⟩
      · have hshorter : (cs.drop (scan c cs).2).length < (c :: cs).length := by
          rw [List.length_drop, List.length_cons]
          omega
        obtain ⟨pre, d, rest, hcs, hvalue, hspan⟩ := ih _ hshorter _ _ rfl x hx
        refine ⟨c :: cs.take (scan c cs).2 ++ pre, d, rest, ?_, hvalue, ?_⟩
        · rw [List.append_assoc, ← hcs, List.cons_append, List.take_append_drop]
        · rw [hspan, List.append_assoc]

namespace Laid

variable {before rest : List Char} {xs : List (Spanned Lexeme)}

/-- Each find takes up a text of its own, somewhere behind what was before. -/
theorem placed (h : Laid before rest xs) : ∀ x ∈ xs, x.value.isFind = true ∧
    ∃ pre text post,
      rest = pre ++ text ++ post ∧ text ≠ [] ∧ x.span = .of (before ++ pre) text := by
  induction h with
  | nil => nofun
  | @gap before text rest xs hne hgap hrest ih =>
    intro x hx
    obtain ⟨hfind, pre, found, post, rfl, hfound, hspan⟩ := ih x hx
    refine ⟨hfind, text ++ pre, found, post, by simp only [List.append_assoc], hfound, ?_⟩
    rw [hspan, List.append_assoc]
  | @find before text rest x xs hne hfind hspan hrest ih =>
    intro y hy
    obtain rfl | hy := List.mem_cons.mp hy
    · exact ⟨hfind, [], text, rest, rfl, hne, by rw [hspan, List.append_nil]⟩
    · obtain ⟨hfind, pre, found, post, rfl, hfound, hspan⟩ := ih y hy
      refine ⟨hfind, text ++ pre, found, post, by simp only [List.append_assoc], hfound, ?_⟩
      rw [hspan, List.append_assoc]

theorem le_start (h : Laid before rest xs) : ∀ x ∈ xs, textSize before ≤ x.span.start := by
  intro x hx
  obtain ⟨-, pre, text, post, -, -, hspan⟩ := h.placed x hx
  rw [hspan, Span.start_of, textSize_append]
  exact Nat.le_add_right _ _

theorem pairwise (h : Laid before rest xs) :
    xs.Pairwise fun x y => x.span.stop ≤ y.span.start := by
  induction h with
  | nil => exact .nil
  | gap hne hgap hrest ih => exact ih
  | find hne hfind hspan hrest ih =>
    refine .cons (fun y hy => ?_) ih
    rw [hspan, Span.stop_of, ← textSize_append]
    exact hrest.le_start y hy

end Laid

theorem tokenize_ok {source : String} (h : faultsOf (finds .start source.toList) = []) :
    tokenize source =
      .ok (tokensOf (finds .start source.toList) ++ [⟨.finish, .of source.toList []⟩]) := by
  have hend : Position.start.after source.toList = .behind source.toList := by
    rw [Position.start_eq_behind, Position.after_behind, List.nil_append]
  rw [faultsOf_finds] at h
  unfold tokenize
  simp only [h, tokensOf_finds, hend, Span.of, List.append_nil]

theorem tokenize_error {source : String} (h : faultsOf (finds .start source.toList) ≠ []) :
    tokenize source = .error (faultsOf (finds .start source.toList)) := by
  rw [faultsOf_finds] at h ⊢
  unfold tokenize
  dsimp only
  split
  · contradiction
  · rfl

/-- A source that is scanned as one token consists of it. -/
theorem tokenize_of_scan {source : String} {c : Char} {cs : List Char} {t : Token}
    (hsource : source.toList = c :: cs) (h : scan c cs = (.token t, cs.length)) :
    tokenize source =
      .ok [⟨t, .of [] source.toList⟩, ⟨.finish, .of source.toList []⟩] := by
  have hfinds : finds .start source.toList = [⟨.token t, .of [] source.toList⟩] := by
    rw [hsource, Position.start_eq_behind, finds_token [] h, List.take_length, List.drop_length,
      finds_nil]
  rw [tokenize_ok (by rw [hfinds]; rfl), hfinds]
  rfl

/-- The finds of a source, which are its tokens and its faults, lie one behind the other, and all
else is gaps. Each is what is scanned where it begins and takes up some text, and its span tells
where: the bytes before it and in it, its line by the newlines before it, its column by the
characters since the last of them. If there are no faults, the source has all its tokens and then,
at its very end, the closing one; otherwise all its faults are reported. -/
theorem tokenize_covers (source : String) :
    Laid [] source.toList (finds .start source.toList) ∧
    ((finds .start source.toList).Pairwise fun x y => x.span.stop ≤ y.span.start) ∧
    (∀ x ∈ finds .start source.toList, x.value.isFind = true ∧ x.span.start < x.span.stop ∧
      ∃ before c rest, source.toList = before ++ c :: rest ∧ x.value = (scan c rest).1 ∧
        x.span = ⟨textSize before, textSize before + textSize (c :: rest.take (scan c rest).2),
          1 + before.count '\n', 1 + (before.reverse.takeWhile (· ≠ '\n')).length⟩) ∧
    (faultsOf (finds .start source.toList) = [] →
      tokenize source = .ok (tokensOf (finds .start source.toList) ++ [⟨.finish,
        ⟨source.utf8ByteSize, source.utf8ByteSize, 1 + source.toList.count '\n',
          1 + (source.toList.reverse.takeWhile (· ≠ '\n')).length⟩⟩])) ∧
    (faultsOf (finds .start source.toList) ≠ [] →
      tokenize source = .error (faultsOf (finds .start source.toList))) := by
  have hlaid := laid_finds [] source.toList
  have hscanned := scanned_finds [] source.toList
  rw [← Position.start_eq_behind] at hlaid hscanned
  refine ⟨hlaid, hlaid.pairwise, fun x hx => ?_, fun h => ?_, tokenize_error⟩
  · obtain ⟨before, c, rest, hsource, hvalue, hspan⟩ := hscanned x hx
    rw [List.nil_append] at hspan
    refine ⟨(hlaid.placed x hx).1, ?_, before, c, rest, hsource, hvalue, ?_⟩
    · rw [hspan, Span.start_of, Span.stop_of]
      exact Nat.lt_add_of_pos_right (textSize_pos (List.cons_ne_nil _ _))
    · rw [hspan, Span.of, Span.between, Position.behind, Position.behind, textSize_append]
  · rw [tokenize_ok h, Span.of, List.append_nil]
    simp only [Span.between, Position.behind, textSize_toList]

end ModuleLoader.Script
