import ModuleLoader.Proofs.Coverage
import ModuleLoader.Proofs.Escapes

/-! Every text has a literal, in either kind of quotes. A backslash stands in front of each
backslash and each quote of the kind around it, and a newline is spelled out; all other characters
stand as they are. -/
namespace ModuleLoader.Script

/-- How a character is written in a literal with these quotes. -/
def escaped (quote c : Char) : List Char :=
  if c = '\\' then ['\\', '\\']
  else if c = quote then ['\\', quote]
  else if c = '\n' then ['\\', 'n']
  else [c]

def literalBody (quote : Char) (text : List Char) : List Char :=
  text.flatMap (escaped quote)

/-- The literal of a text, in these quotes. -/
def literal (quote : Char) (text : String) : String :=
  String.ofList (quote :: (literalBody quote text.toList ++ [quote]))

/-! ### Where a literal ends -/

theorem stringBody_close {quote : Char} (hslash : quote ≠ '\\') (rest : List Char) :
    stringBody quote (quote :: rest) = (0, true) := by
  rw [stringBody]
  · exact if_pos rfl
  · exact fun _ _ h _ => hslash h

theorem stringBody_escape {quote c : Char} (hline : c ≠ '\n') (rest : List Char) :
    stringBody quote ('\\' :: c :: rest) =
      ((stringBody quote rest).1 + 2, (stringBody quote rest).2) := by
  rw [stringBody, if_neg hline]

theorem stringBody_plain {quote c : Char} (hquote : c ≠ quote) (hslash : c ≠ '\\')
    (hline : c ≠ '\n') (rest : List Char) :
    stringBody quote (c :: rest) =
      ((stringBody quote rest).1 + 1, (stringBody quote rest).2) := by
  rw [stringBody]
  · rw [if_neg hquote, if_neg (not_or.mpr ⟨hslash, hline⟩)]
  · exact fun _ _ h _ => hslash h

/-! ### What is written -/

variable {quote : Char}

/-- A character is written as it is, or as a backslash and a character that stands for it. -/
theorem escaped_spec (hquote : quote = '"' ∨ quote = '\'') (c : Char) :
    (escaped quote c = [c] ∧ c ≠ quote ∧ c ≠ '\\' ∧ c ≠ '\n') ∨
      ∃ d, escaped quote c = ['\\', d] ∧ d ≠ '\n' ∧ codeLength? d = none ∧ shortEscape d = c := by
  unfold escaped
  split_ifs with hslash hother hline
  · subst hslash
    exact .inr ⟨'\\', rfl, by decide, rfl, rfl⟩
  · subst hother
    obtain rfl | rfl := hquote
    · exact .inr ⟨'"', rfl, by decide, rfl, rfl⟩
    · exact .inr ⟨'\'', rfl, by decide, rfl, rfl⟩
  · subst hline
    exact .inr ⟨'n', rfl, by decide, rfl, rfl⟩
  · exact .inl ⟨rfl, hother, hslash, hline⟩

theorem part_escaped (hquote : quote = '"' ∨ quote = '\'') (c : Char) :
    Part SignedNumeral (escaped quote c) c := by
  obtain ⟨hc, -, hslash, -⟩ | ⟨d, hc, -, hcode, hd⟩ := escaped_spec hquote c
  · rw [hc]
    exact .plain hslash
  · rw [hc, ← hd]
    exact .short hcode

theorem unescape_literalBody (hquote : quote = '"' ∨ quote = '\'') (text : List Char) :
    unescape (literalBody quote text) = some text := by
  apply unescape_of_reads
  induction text with
  | nil => exact ⟨[], rfl, .nil⟩
  | cons c text ih => exact ih.cons (part_escaped hquote c)

/-- The first quote without a backslash of its own is the one that closes the literal. -/
theorem stringBody_literalBody (hquote : quote = '"' ∨ quote = '\'') (text rest : List Char) :
    stringBody quote (literalBody quote text ++ quote :: rest) =
      ((literalBody quote text).length, true) := by
  induction text with
  | nil =>
    have hslash : quote ≠ '\\' := by obtain rfl | rfl := hquote <;> decide
    exact stringBody_close hslash rest
  | cons c text ih =>
    rw [literalBody, List.flatMap_cons, ← literalBody, List.append_assoc, List.length_append,
      Nat.add_comm]
    obtain ⟨hc, hother, hslash, hline⟩ | ⟨d, hc, hline, -⟩ := escaped_spec hquote c
    · rw [hc, List.singleton_append, stringBody_plain hother hslash hline, ih]
      rfl
    · rw [hc, List.cons_append, List.singleton_append, stringBody_escape hline, ih]
      rfl

theorem newline_notMem_literal (hquote : quote = '"' ∨ quote = '\'') (text : String) :
    '\n' ∉ (literal quote text).toList := by
  have hquoted : '\n' ≠ quote := by obtain rfl | rfl := hquote <;> decide
  have hbody : '\n' ∉ literalBody quote text.toList := by
    intro h
    obtain ⟨c, -, hmem⟩ := List.mem_flatMap.mp h
    obtain ⟨hc, -, -, hline⟩ | ⟨d, hc, hline, -⟩ := escaped_spec hquote c
    · rw [hc, List.mem_singleton] at hmem
      exact hline hmem.symm
    · rw [hc] at hmem
      simp [hline.symm] at hmem
  rw [literal, String.toList_ofList]
  simp [hquoted, hbody]

/-! ### What is read -/

theorem scan_literal (hquote : quote = '"' ∨ quote = '\'') (text : List Char) :
    scan quote (literalBody quote text ++ [quote]) =
      (.token (.string (String.ofList text)), (literalBody quote text ++ [quote]).length) := by
  have hstring : scan quote (literalBody quote text ++ [quote]) =
      scanString quote (literalBody quote text ++ [quote]) := by
    obtain rfl | rfl := hquote <;> rfl
  rw [hstring, scanString, stringBody_literalBody hquote]
  simp only [if_true, List.take_left, unescape_literalBody hquote, List.length_append,
    List.length_singleton]

/-- The literal of any text is read as one token, which takes up the whole source, on one line, and
stands for the text. -/
theorem tokenize_literal (hquote : quote = '"' ∨ quote = '\'') (text : String) :
    tokenize (literal quote text) = .ok [
      ⟨.string text, ⟨0, (literal quote text).utf8ByteSize, 1, 1⟩⟩,
      ⟨.finish, ⟨(literal quote text).utf8ByteSize, (literal quote text).utf8ByteSize, 1,
        1 + (literal quote text).length⟩⟩] := by
  have hsource : (literal quote text).toList =
      quote :: (literalBody quote text.toList ++ [quote]) :=
    String.toList_ofList
  have hline := newline_notMem_literal hquote text
  have hcolumn : (literal quote text).toList.reverse.takeWhile (· ≠ '\n') =
      (literal quote text).toList.reverse := by
    refine List.takeWhile_eq_self_iff.mpr fun c hc => decide_eq_true fun h => hline ?_
    rwa [← h, ← List.mem_reverse]
  rw [tokenize_of_scan hsource (scan_literal hquote text.toList), String.ofList_toList]
  simp only [Span.of, Span.between, Position.behind, List.nil_append, List.append_nil, textSize_nil,
    textSize_toList, List.count_nil, List.reverse_nil, List.takeWhile_nil, List.length_nil,
    Nat.add_zero, List.count_eq_zero_of_not_mem hline, hcolumn, List.length_reverse,
    String.length_toList]

/-- The source `"a\"b\\\nc"`, for a text with a quote, a backslash and a newline. -/
theorem tokenize_literal_sample :
    literal '"' "a\"b\\\nc" = "\"a\\\"b\\\\\\nc\"" ∧
      tokenize (literal '"' "a\"b\\\nc") = .ok [⟨.string "a\"b\\\nc", ⟨0, 11, 1, 1⟩⟩,
        ⟨.finish, ⟨11, 11, 1, 12⟩⟩] :=
  ⟨rfl, tokenize_literal (.inl rfl) _⟩

end ModuleLoader.Script
