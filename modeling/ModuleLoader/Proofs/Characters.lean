import Mathlib.Order.Monotone.Basic
import ModuleLoader.Proofs.JsonTexts
import ModuleLoader.Script.Operator
import ModuleLoader.Script.Property

/-! What scripts read of a string. An index counts characters, and `length` counts UTF-16 units, of
which a character of the supplementary planes takes two. So the indices that read a string are those
below the number of characters, and they are the ones below `length` only for a string without such
characters. -/
namespace ModuleLoader.Script

/-! ### Decimal texts as keys -/

theorem ofDigits_decimalDigits (n : Nat) : Number.ofDigits (Number.decimalDigits n) = n :=
  Nat.ofDigitChars_ten_toDigits

theorem indexOfKey?_toString (i : Nat) :
    indexOfKey? (toString i) = if i < indexBound then some i else none := by
  have htext : (toString i).toList = Number.decimalDigits i := Nat.toList_repr
  obtain ⟨c, more, hdigits, hc⟩ := Json.decimalDigits_cons i
  have hall : (c :: more).all Char.isDigit = true := by
    rw [← hdigits, List.all_eq_true]
    exact fun _ => Json.isDigit_of_mem_decimalDigits
  have hvalue : Number.ofDigits (c :: more) = i := by rw [← hdigits, ofDigits_decimalDigits]
  simp only [indexOfKey?, htext, hdigits]
  split
  next ds heq =>
    obtain ⟨rfl, -⟩ := List.cons.inj heq
    exact absurd hc (by decide)
  next => rw [hall, hvalue]; rfl

theorem toString_ne_length (i : Nat) : toString i ≠ "length" := by
  intro h
  have hdigit : ∀ c ∈ "length".toList, c.isDigit = true := by
    rw [← h, show (toString i).toList = Number.decimalDigits i from Nat.toList_repr]
    exact fun _ => Json.isDigit_of_mem_decimalDigits
  exact absurd (hdigit 'l' (by decide)) (by decide)

/-! ### Units and characters -/

/-- A character that takes two UTF-16 units. -/
def isWide (c : Char) : Bool := 0x10000 ≤ c.toNat

theorem units16_eq (s : String) : units16 s = s.length + s.toList.countP isWide := by
  have hfold : ∀ (cs : List Char) (n : Nat),
      cs.foldl (fun n c => n + if c.toNat < 0x10000 then 1 else 2) n =
        n + cs.length + cs.countP isWide := by
    intro cs
    induction cs with
    | nil => simp
    | cons c cs ih =>
      intro n
      rw [List.foldl_cons, ih, List.countP_cons, List.length_cons]
      simp only [isWide, decide_eq_true_eq]
      split <;> split <;> omega
  rw [units16, hfold, String.length_toList, Nat.zero_add]

theorem units16_eq_length_iff {s : String} :
    units16 s = s.length ↔ ∀ c ∈ s.toList, c.toNat < 0x10000 := by
  rw [units16_eq, Nat.add_eq_left, List.countP_eq_zero]
  simp [isWide]

namespace Heap

variable {h : Heap} {s : String}

/-! ### Items of strings -/

/-- What a script gets that adds the items of a value at the indices below `n` to an empty text. -/
def sumOfItems (h : Heap) (target : Value) (n : Nat) : Except PropertyFault Value :=
  (List.range n).foldlM (fun text i => do
    return h.binary .add text (← h.getProperty target (toString i))) (.string "")

/-- The indices below `n` are those that read a string. -/
def ReadsBelow (h : Heap) (target : Value) (n : Nat) : Prop :=
  ∀ i, (∃ item, h.getProperty target (toString i) = .ok (.string item)) ↔ i < n

theorem getProperty_string_index (hs : s.length ≤ indexBound) (i : Nat) :
    h.getProperty (.string s) (toString i) =
      .ok ((s.toList[i]?).elim .undefined fun c => .string (String.singleton c)) := by
  have hitem : (if i < indexBound then some i else none).bind (fun i => s.toList[i]?) =
      s.toList[i]? := by
    split
    · rfl
    · rw [List.getElem?_eq_none (by rw [String.length_toList]; omega), Option.bind_none]
  rw [getProperty, stringProperty, if_neg (toString_ne_length i), indexOfKey?_toString, hitem]
  cases s.toList[i]? <;> rfl

theorem readsBelow_string_iff (hs : s.length ≤ indexBound) {n : Nat} :
    h.ReadsBelow (.string s) n ↔ n = s.length := by
  have hreads : ∀ i,
      (∃ item, h.getProperty (.string s) (toString i) = .ok (.string item)) ↔ i < s.length := by
    intro i
    rw [getProperty_string_index hs, ← String.length_toList]
    obtain hi | hi := Nat.lt_or_ge i s.toList.length
    · simp [hi]
    · simp [hi]
  simp only [ReadsBelow, hreads]
  refine ⟨fun hsame => ?_, fun hn i => by rw [hn]⟩
  have hlt := hsame n
  have hgt := hsame s.length
  omega

/-! ### Items put together -/

/-- An item of a string as a part of a text. -/
def itemText (s : String) (i : Nat) : String :=
  (s.toList[i]?).elim "undefined" String.singleton

theorem display_string (h : Heap) (s : String) : h.display (.string s) = s := by
  rw [display]
  cases maxDepth <;> rfl

theorem display_undefined (h : Heap) : h.display .undefined = "undefined" := by
  rw [display]
  cases maxDepth <;> rfl

theorem add_string (h : Heap) (text : String) (v : Value) :
    h.binary .add (.string text) v = .string (text ++ h.display v) := by
  rw [binary, Value.joinsText, Bool.true_or, if_pos rfl, display_string]

theorem sumOfItems_succ {target text item : Value} {n : Nat}
    (htext : h.sumOfItems target n = .ok text)
    (hitem : h.getProperty target (toString n) = .ok item) :
    h.sumOfItems target (n + 1) = .ok (h.binary .add text item) := by
  rw [sumOfItems] at htext ⊢
  rw [List.range_succ, List.foldlM_append, htext]
  simp only [List.foldlM_cons, hitem]
  rfl

theorem sumOfItems_string (hs : s.length ≤ indexBound) (n : Nat) :
    h.sumOfItems (.string s) n = .ok (.string (String.join ((List.range n).map (itemText s)))) := by
  induction n with
  | zero => rfl
  | succ n ih =>
    have hitem : h.display ((s.toList[n]?).elim .undefined fun c => .string (String.singleton c)) =
        itemText s n := by
      rw [itemText]
      cases s.toList[n]? with
      | none => exact display_undefined h
      | some c => exact display_string h _
    rw [sumOfItems_succ ih (getProperty_string_index hs n), add_string, hitem, List.range_succ]
    simp

/-- The items at the first indices make up a front part of the string. -/
theorem toList_join_itemText {n : Nat} (hn : n ≤ s.length) :
    (String.join ((List.range n).map (itemText s))).toList = s.toList.take n := by
  induction n with
  | zero => rfl
  | succ n ih =>
    have hlt : n < s.toList.length := by rwa [String.length_toList]
    rw [List.range_succ, List.map_append, String.join_append, String.toList_append,
      ih (Nat.le_of_succ_le hn), List.take_add_one]
    simp [itemText, hlt]

theorem join_itemText_length : String.join ((List.range s.length).map (itemText s)) = s := by
  rw [← String.toList_inj, toList_join_itemText le_rfl, ← String.length_toList, List.take_length]

theorem strictMono_length_join_itemText :
    StrictMono fun n => (String.join ((List.range n).map (itemText s))).length := by
  refine strictMono_nat_of_lt_succ fun n => ?_
  have hitem : 0 < (itemText s n).length := by
    rw [itemText]
    cases s.toList[n]? with
    | none => decide
    | some c => simp
  simp only [List.range_succ, List.map_append, String.join_append, String.length_append]
  simpa using hitem

theorem sumOfItems_string_iff (hs : s.length ≤ indexBound) {n : Nat} :
    h.sumOfItems (.string s) n = .ok (.string s) ↔ n = s.length := by
  rw [sumOfItems_string hs]
  refine ⟨fun hself => ?_, fun hn => by rw [hn, join_itemText_length]⟩
  injection hself with hself
  injection hself with hself
  -- each item makes the text longer, so that it is the string at one number of items only
  refine (strictMono_length_join_itemText (s := s)).injective ?_
  simp only [hself, join_itemText_length]

/-- The items of a string that is no longer than indices reach are those at the indices below the
number of its characters, and together they are the string. `length` is not that number but the one
of UTF-16 units: the two agree on a string just if none of its characters takes two units. -/
theorem string_items (h : Heap) (s : String) (hs : s.length ≤ indexBound) :
    (∀ n, h.ReadsBelow (.string s) n ↔ n = s.length) ∧
    (∀ n, h.sumOfItems (.string s) n = .ok (.string s) ↔ n = s.length) ∧
    h.getProperty (.string s) "length" = .ok (.number (Float.ofNat (units16 s))) ∧
    (h.ReadsBelow (.string s) (units16 s) ↔ ∀ c ∈ s.toList, c.toNat < 0x10000) ∧
    (h.sumOfItems (.string s) (units16 s) = .ok (.string s) ↔
      ∀ c ∈ s.toList, c.toNat < 0x10000) := by
  refine ⟨fun n => readsBelow_string_iff hs, fun n => sumOfItems_string_iff hs, rfl, ?_, ?_⟩
  · rw [readsBelow_string_iff hs, units16_eq_length_iff]
  · rw [sumOfItems_string_iff hs, units16_eq_length_iff]

theorem string_items_sample :
    (∀ n, empty.ReadsBelow (.string "a😀") n ↔ n = 2) ∧
    (∀ n, empty.sumOfItems (.string "a😀") n = .ok (.string "a😀") ↔ n = 2) ∧
    empty.getProperty (.string "a😀") "length" = .ok (.number (Float.ofNat 3)) := by
  obtain ⟨hreads, hsum, hlength, -⟩ := string_items empty "a😀" (by decide)
  exact ⟨hreads, hsum, hlength⟩

/-- A character that takes two units makes a string of length two, of which the index one reads
nothing. -/
theorem string_items_ne_length :
    empty.getProperty (.string "😀") "length" = .ok (.number (Float.ofNat 2)) ∧
    empty.getProperty (.string "😀") (toString 1) = .ok .undefined ∧
    ¬ empty.ReadsBelow (.string "😀") 2 ∧
    empty.sumOfItems (.string "😀") 2 = .ok (.string "😀undefined") := by
  have hbound : "😀".length ≤ indexBound := by decide
  refine ⟨rfl, getProperty_string_index hbound 1, ?_, ?_⟩
  · rw [readsBelow_string_iff hbound]
    decide
  · rw [sumOfItems_string hbound]
    rfl

end Heap

end ModuleLoader.Script
