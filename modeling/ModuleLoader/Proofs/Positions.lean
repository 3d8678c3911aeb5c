import Mathlib.Data.List.Induction
import ModuleLoader.Script.Lexer

/-! Positions counted out on the text before them. Counting along a text, as the lexer does, comes
to the same positions, so a stretch of source is known from the text before it and the text in it.
-/
namespace ModuleLoader.Script

/-- The number of bytes of a text. -/
def textSize (cs : List Char) : Nat :=
  (String.ofList cs).utf8ByteSize

@[simp] theorem textSize_nil : textSize [] = 0 := by
  rw [textSize, String.ofList_nil, String.utf8ByteSize_empty]

@[simp] theorem textSize_append (s t : List Char) :
    textSize (s ++ t) = textSize s + textSize t := by
  rw [textSize, String.ofList_append, String.utf8ByteSize_append, textSize, textSize]

@[simp] theorem textSize_singleton (c : Char) : textSize [c] = c.utf8Size := by
  rw [textSize, String.ofList_cons, String.ofList_nil, String.append_empty,
    String.utf8ByteSize_singleton]

theorem textSize_cons (c : Char) (cs : List Char) :
    textSize (c :: cs) = c.utf8Size + textSize cs := by
  rw [← List.singleton_append, textSize_append, textSize_singleton]

theorem textSize_pos {cs : List Char} (h : cs ≠ []) : 0 < textSize cs := by
  obtain ⟨c, cs, rfl⟩ := List.exists_cons_of_ne_nil h
  rw [← List.singleton_append, textSize_append, textSize_singleton]
  exact Nat.lt_add_right _ c.utf8Size_pos

theorem textSize_toList (s : String) : textSize s.toList = s.utf8ByteSize := by
  rw [textSize, String.ofList_toList]

/-- The position that a text ends at: the lines are counted by their newlines, the columns from the
last one. -/
def Position.behind (cs : List Char) : Position :=
  ⟨textSize cs, 1 + cs.count '\n', 1 + (cs.reverse.takeWhile (· ≠ '\n')).length⟩

theorem Position.behind_concat (cs : List Char) (c : Char) :
    behind (cs ++ [c]) = (behind cs).next c := by
  by_cases hc : c = '\n'
  · subst hc
    simp [behind, next, Nat.add_assoc]
  · have hcount : List.count '\n' [c] = 0 := List.count_eq_zero_of_not_mem (by simp [Ne.symm hc])
    simp [behind, next, hc, hcount, Nat.add_comm]

theorem Position.after_behind (before text : List Char) :
    (behind before).after text = behind (before ++ text) := by
  induction text using List.reverseRecOn with
  | nil => rw [after_nil, List.append_nil]
  | append_singleton text c ih =>
    rw [after_append, ih, after_cons, after_nil, ← behind_concat, List.append_assoc]

theorem Position.start_eq_behind : start = behind [] := by
  simp [start, behind]

/-- The stretch of a source that a text takes up behind another text. -/
def Span.of (before text : List Char) : Span :=
  .between (.behind before) (.behind (before ++ text))

theorem Span.start_of (before text : List Char) : (Span.of before text).start = textSize before :=
  rfl

theorem Span.stop_of (before text : List Char) :
    (Span.of before text).stop = textSize before + textSize text :=
  textSize_append before text

namespace Span

theorem sliceFrom_append (s : Span) (offset : Nat) (cs more : List Char) :
    s.sliceFrom offset (cs ++ more) =
      s.sliceFrom offset cs ++ s.sliceFrom (offset + textSize cs) more := by
  induction cs generalizing offset with
  | nil => simp [sliceFrom]
  | cons c cs ih =>
    rw [List.cons_append, sliceFrom, sliceFrom, ih, textSize_cons, Nat.add_assoc]
    split <;> rfl

variable {s : Span} {offset : Nat} {cs : List Char}

theorem sliceFrom_outside (h : offset + textSize cs ≤ s.start ∨ s.stop ≤ offset) :
    s.sliceFrom offset cs = [] := by
  induction cs generalizing offset with
  | nil => rfl
  | cons c cs ih =>
    have hsize := textSize_cons c cs
    have hpos := c.utf8Size_pos
    rw [sliceFrom, ih (by omega), if_neg]
    simp only [Bool.and_eq_true, decide_eq_true_eq]
    omega

theorem sliceFrom_inside (hstart : s.start ≤ offset) (hstop : offset + textSize cs ≤ s.stop) :
    s.sliceFrom offset cs = cs := by
  induction cs generalizing offset with
  | nil => rfl
  | cons c cs ih =>
    have hsize := textSize_cons c cs
    have hpos := c.utf8Size_pos
    rw [sliceFrom, ih (by omega) (by omega), if_pos]
    simp only [Bool.and_eq_true, decide_eq_true_eq]
    omega

/-- The span of a text slices just the text out of its source. -/
theorem slice_of (before text rest : List Char) :
    (Span.of before text).slice (String.ofList (before ++ text ++ rest)) = String.ofList text := by
  have hstart := Span.start_of before text
  have hstop := Span.stop_of before text
  rw [slice, String.toList_ofList, sliceFrom_append, sliceFrom_append, textSize_append,
    sliceFrom_outside (.inl (by omega)), sliceFrom_inside (by omega) (by omega),
    sliceFrom_outside (.inr (by omega)), List.nil_append, List.append_nil]

end Span
end ModuleLoader.Script
