import Mathlib.Data.List.Chain
import Mathlib.Data.List.Nodup
import Mathlib.Logic.Relation
import ModuleLoader.Proofs.Runs
import ModuleLoader.Script.Operator

/-! The two texts of an array. Its conversion to a string leaves out an array that it is already in,
or that is too deep; `join` converts each item afresh, so that the array itself is not counted among
those. The texts are the same unless that makes a difference. -/
namespace ModuleLoader.Script

/-! ### Texts with commas between them -/

section

variable {α : Type} {f g : α → String} {items : List α}

theorem intercalate_map_cons (f : α → String) (x y : α) (items : List α) :
    ",".intercalate ((x :: y :: items).map f) =
      f x ++ "," ++ ",".intercalate ((y :: items).map f) := by
  rw [List.map_cons, List.map_cons, String.intercalate_cons_cons, ← List.map_cons]

theorem length_intercalate_le (h : ∀ x ∈ items, (f x).length ≤ (g x).length) :
    (",".intercalate (items.map f)).length ≤ (",".intercalate (items.map g)).length := by
  induction items with
  | nil => exact Nat.le_refl _
  | cons x items ih =>
    obtain ⟨hx, hitems⟩ := List.forall_mem_cons.mp h
    cases items with
    | nil => simpa using hx
    | cons y items =>
      have hrest := ih hitems
      simp only [intercalate_map_cons, String.length_append]
      omega

theorem append_inj_of_length {s s' t t' : String} (heq : s ++ t = s' ++ t')
    (hlen : s.length = s'.length) : s = s' ∧ t = t' := by
  rw [← String.toList_inj, String.toList_append, String.toList_append] at heq
  rw [← String.length_toList, ← String.length_toList] at hlen
  obtain ⟨hs, ht⟩ := List.append_inj heq hlen
  exact ⟨String.toList_inj.mp hs, String.toList_inj.mp ht⟩

/-- Texts that are never longer than others make up the same only if they are the same. -/
theorem intercalate_eq_iff (h : ∀ x ∈ items, (f x).length ≤ (g x).length) :
    ",".intercalate (items.map f) = ",".intercalate (items.map g) ↔ ∀ x ∈ items, f x = g x := by
  refine ⟨fun heq => ?_, fun hsame => by rw [List.map_congr_left hsame]⟩
  induction items with
  | nil => exact List.forall_mem_nil _
  | cons x items ih =>
    obtain ⟨hx, hitems⟩ := List.forall_mem_cons.mp h
    cases items with
    | nil => simpa using heq
    | cons y items =>
      rw [intercalate_map_cons, intercalate_map_cons, String.append_assoc,
        String.append_assoc] at heq
      -- neither part is longer than the other side's, so equal texts part at the same place
      have hrest := length_intercalate_le hitems
      have hlen := congrArg String.length heq
      simp only [String.length_append] at hlen
      obtain ⟨hsame, heq⟩ := append_inj_of_length heq (by omega)
      exact List.forall_mem_cons.mpr ⟨hsame, ih hitems (append_inj_of_length heq rfl).2⟩

/-- Two texts have a comma between them, whatever they are. -/
theorem intercalate_ne_empty (f : α → String) (hitems : 2 ≤ items.length) :
    ",".intercalate (items.map f) ≠ "" := by
  match items, hitems with
  | x :: y :: items, _ =>
    intro hempty
    have hlength := congrArg String.length hempty
    rw [intercalate_map_cons, String.length_append, String.length_append] at hlength
    exact absurd hlength (by simp)

end

namespace Heap

variable {h : Heap} {a c d : ArrayId} {v : Value} {left left' : Nat} {inside inside' : List ArrayId}

/-! ### Items as parts of a text -/

/-- An item as a part of the text of an array. -/
def partIn (h : Heap) (left : Nat) (inside : List ArrayId) (v : Value) : String :=
  if v.isAbsent then "" else h.displayIn left inside v

/-- The items of an array, put together. -/
def partsIn (h : Heap) (left : Nat) (inside : List ArrayId) (d : ArrayId) : String :=
  ",".intercalate ((h.array d).toList.map (h.partIn left inside))

theorem displayIn_array_eq_empty (hc : c ∈ inside ∨ left = 0) :
    h.displayIn left inside (.array c) = "" := by
  obtain hc | rfl := hc
  · cases left <;> simp [displayIn, hc]
  · rfl

theorem displayIn_array_of_notMem (hc : c ∉ inside) :
    h.displayIn (left + 1) inside (.array c) = h.partsIn left (c :: inside) c := by
  rw [displayIn, if_neg (by simpa using hc)]
  rfl

theorem partIn_array : h.partIn left inside (.array c) = h.displayIn left inside (.array c) := rfl

theorem partIn_of_ne_array (hv : ∀ c, v ≠ .array c) :
    h.partIn left inside v = h.partIn left' inside' v := by
  cases v with
  | array c => exact absurd rfl (hv c)
  | bool b => cases b <;> cases left <;> cases left' <;> rfl
  | _ => cases left <;> cases left' <;> rfl

/-- The more arrays may not be entered, the shorter is the text. -/
theorem length_partIn_le (hleft : left ≤ left') (hinside : inside' ⊆ inside) (v : Value) :
    (h.partIn left inside v).length ≤ (h.partIn left' inside' v).length := by
  induction left using Nat.strongRecOn generalizing left' inside inside' v with | ind left ih
  by_cases hv : ∃ c, v = .array c
  · obtain ⟨c, rfl⟩ := hv
    rw [partIn_array, partIn_array]
    by_cases hstop : c ∈ inside ∨ left = 0
    · rw [displayIn_array_eq_empty hstop]
      exact Nat.zero_le _
    · obtain ⟨hc, hne⟩ := not_or.mp hstop
      obtain ⟨k, rfl⟩ := Nat.exists_eq_succ_of_ne_zero hne
      obtain ⟨k', rfl⟩ := Nat.exists_eq_succ_of_ne_zero (n := left') (by omega)
      rw [displayIn_array_of_notMem hc, displayIn_array_of_notMem fun hc' => hc (hinside hc')]
      exact length_intercalate_le fun v _ => ih k (Nat.lt_succ_self k)
        (Nat.le_of_succ_le_succ hleft) (List.cons_subset_cons c hinside) v
  · exact Nat.le_of_eq (congrArg String.length (partIn_of_ne_array (not_exists.mp hv)))

/-! ### What one text leaves out and the other does not -/

/-- The first array has the second among its items. -/
def HasItem (h : Heap) (d c : ArrayId) : Prop :=
  Value.array c ∈ (h.array d).toList

/-- A way from an array, from each to one of its items, to one that is not entered because it is
`a`, or because no more may be entered. The way itself does not come to `a`, to an array in `inside`
or to any array twice. -/
structure StopsAt (h : Heap) (a : ArrayId) (left : Nat) (inside : List ArrayId) (d : ArrayId)
    (via : List ArrayId) (c : ArrayId) : Prop where
  chain : List.IsChain h.HasItem (d :: via ++ [c])
  fresh : (via.reverse ++ (inside ++ [a])).Nodup
  within : via.length ≤ left
  stops : c = a ∨ via.length = left

variable {via : List ArrayId} {e : ArrayId}

theorem stopsAt_nil :
    h.StopsAt a left inside d [] c ↔ h.HasItem d c ∧ (inside ++ [a]).Nodup ∧ (c = a ∨ left = 0) := by
  constructor
  · rintro ⟨hchain, hfresh, -, hstops⟩
    exact ⟨by simpa using hchain, hfresh, by simpa [eq_comm] using hstops⟩
  · rintro ⟨hitem, hfresh, hstops⟩
    exact ⟨by simpa using hitem, hfresh, Nat.zero_le _, by simpa [eq_comm] using hstops⟩

theorem stopsAt_cons :
    h.StopsAt a (left + 1) inside d (e :: via) c ↔
      h.HasItem d e ∧ h.StopsAt a left (e :: inside) e via c := by
  have hchain : List.IsChain h.HasItem (d :: e :: via ++ [c]) ↔
      h.HasItem d e ∧ List.IsChain h.HasItem (e :: via ++ [c]) := List.isChain_cons_cons
  have hfresh : (e :: via).reverse ++ (inside ++ [a]) = via.reverse ++ (e :: inside ++ [a]) := by
    simp
  constructor
  · rintro ⟨hc, hf, hwithin, hstops⟩
    obtain ⟨hitem, hc⟩ := hchain.mp hc
    exact ⟨hitem, hc, hfresh ▸ hf, by simpa using hwithin, by simpa using hstops⟩
  · rintro ⟨hitem, hc, hf, hwithin, hstops⟩
    exact ⟨hchain.mpr ⟨hitem, hc⟩, hfresh ▸ hf, by simpa using hwithin, by simpa using hstops⟩

theorem StopsAt.hasItem (hway : h.StopsAt a left inside d (e :: via) c) : h.HasItem d e :=
  (List.isChain_cons_cons.mp hway.chain).1

/-- No way goes on from where no array may be entered. -/
theorem StopsAt.goes_on (hway : h.StopsAt a left inside d (e :: via) c) :
    ¬ (e ∈ inside ++ [a] ∨ left = 0) := by
  rintro (he | rfl)
  · have hfresh := hway.fresh
    rw [List.reverse_cons, List.append_assoc, List.nodup_append] at hfresh
    exact (List.nodup_cons.mp hfresh.2.1).1 he
  · exact Nat.not_succ_le_zero _ hway.within

/-- The ways from an array, by the item that they begin with. -/
theorem forall_stopsAt_iff (hnodup : (inside ++ [a]).Nodup) {P : List ArrayId → ArrayId → Prop} :
    (∀ via c, h.StopsAt a left inside d via c → P via c) ↔
      ∀ e, h.HasItem d e → (e = a ∨ left = 0 → P [] e) ∧
        ∀ via c, h.StopsAt a left inside d (e :: via) c → P (e :: via) c := by
  constructor
  · intro hall e hde
    exact ⟨fun he => hall [] e (stopsAt_nil.mpr ⟨hde, hnodup, he⟩), fun via => hall (e :: via)⟩
  · intro hall via c hway
    cases via with
    | nil =>
      obtain ⟨hdc, -, hc⟩ := stopsAt_nil.mp hway
      exact (hall c hdc).1 hc
    | cons e via => exact (hall e hway.hasItem).2 via c hway

/-- Whether the items of an array make up the same text is settled by the arrays among them. -/
theorem partsIn_eq_iff_forall_hasItem :
    h.partsIn (left + 1) inside d = h.partsIn left (inside ++ [a]) d ↔
      ∀ c, h.HasItem d c → h.displayIn (left + 1) inside (.array c) =
        h.displayIn left (inside ++ [a]) (.array c) := by
  have hle : ∀ v ∈ (h.array d).toList,
      (h.partIn left (inside ++ [a]) v).length ≤ (h.partIn (left + 1) inside v).length :=
    fun v _ => length_partIn_le (Nat.le_succ left) (List.subset_append_left _ _) v
  rw [partsIn, partsIn, eq_comm, intercalate_eq_iff hle]
  constructor
  · exact fun hall c hc => (hall _ hc).symm
  · intro hall v hv
    by_cases harray : ∃ c, v = .array c
    · obtain ⟨c, rfl⟩ := harray
      exact (hall c hv).symm
    · exact partIn_of_ne_array (not_exists.mp harray)

/-- Rendering the items of an array with one array more that may not be entered, and one level
less, makes no difference just if what is left out for that renders empty. -/
theorem partsIn_eq_iff (hnodup : (inside ++ [a]).Nodup) :
    h.partsIn (left + 1) inside d = h.partsIn left (inside ++ [a]) d ↔
      ∀ via c, h.StopsAt a left inside d via c →
        h.displayIn (left + 1 - via.length) (via.reverse ++ inside) (.array c) = "" := by
  -- entering an item puts it in front of `inside`, so that `a` stays the last array on one side
  induction left using Nat.strongRecOn generalizing inside d with | ind left ih
  rw [partsIn_eq_iff_forall_hasItem, forall_stopsAt_iff hnodup]
  refine forall₂_congr fun e hde => ?_
  by_cases hstop : e ∈ inside ++ [a] ∨ left = 0
  · have hnone : ∀ via c, ¬ h.StopsAt a left inside d (e :: via) c :=
      fun via c hway => hway.goes_on hstop
    rw [displayIn_array_eq_empty hstop]
    simp only [hnone, false_implies, implies_true, and_true]
    refine ⟨fun hempty _ => hempty, fun hempty => ?_⟩
    by_cases he : e ∈ inside
    · exact displayIn_array_eq_empty (.inl he)
    · exact hempty (by simpa [he] using hstop)
  · obtain ⟨he, hne⟩ := not_or.mp hstop
    obtain ⟨k, rfl⟩ := Nat.exists_eq_succ_of_ne_zero hne
    have hinside : e ∉ inside ∧ e ≠ a := by simpa using he
    have hnodup' : (e :: inside ++ [a]).Nodup := List.nodup_cons.mpr ⟨he, hnodup⟩
    have hrest := ih k (Nat.lt_succ_self k) (d := e) hnodup'
    rw [displayIn_array_of_notMem he, displayIn_array_of_notMem hinside.1]
    refine hrest.trans ⟨fun hall => ⟨fun he => ?_, fun via c hway => ?_⟩, fun hall via c hway => ?_⟩
    · exact absurd he (by simp [hinside.2])
    · simpa using hall via c (stopsAt_cons.mp hway).2
    · simpa using hall.2 via c (stopsAt_cons.mpr ⟨hde, hway⟩)

/-! ### The text that `join` gives -/

/-- The text that `join` gives of an array if it is given no separator. -/
def joined (h : Heap) (a : ArrayId) : String :=
  ",".intercalate ((h.array a).toList.map fun v => if v.isAbsent then "" else h.display v)

/-- The conversion of the array `a` to a string comes through other arrays to `c` and leaves it out:
it is `a` itself, or it is one too many. `join`, which begins with the items of `a`, does not leave
it out for that. -/
structure LeavesOut (h : Heap) (a : ArrayId) (via : List ArrayId) (c : ArrayId) : Prop where
  chain : List.IsChain h.HasItem (a :: via ++ [c])
  fresh : (a :: via).Nodup
  within : via.length < maxDepth
  stops : c = a ∨ via.length + 1 = maxDepth

theorem leavesOut_iff_stopsAt {k : Nat} (hk : maxDepth = k + 1) :
    h.LeavesOut a via c ↔ h.StopsAt a k [] a via c := by
  have hfresh : (via.reverse ++ ([] ++ [a])).Nodup ↔ (a :: via).Nodup := by
    rw [List.nil_append, ← List.reverse_cons, List.nodup_reverse]
  constructor
  · rintro ⟨hchain, hf, hwithin, hstops⟩
    exact ⟨hchain, hfresh.mpr hf, by omega, hstops.imp_right (by omega)⟩
  · rintro ⟨hchain, hf, hwithin, hstops⟩
    exact ⟨hchain, hfresh.mp hf, by omega, hstops.imp_right (by omega)⟩

theorem joined_eq_display_iff :
    h.joined a = h.display (.array a) ↔ ∀ via c, h.LeavesOut a via c →
      h.displayIn (maxDepth - via.length) via.reverse (.array c) = "" := by
  have hjoined : h.joined a = h.partsIn maxDepth [] a := rfl
  obtain ⟨k, hk⟩ : ∃ k, maxDepth = k + 1 := ⟨_, rfl⟩
  simp only [leavesOut_iff_stopsAt hk]
  rw [hjoined, display, hk, displayIn_array_of_notMem List.not_mem_nil]
  refine (partsIn_eq_iff (List.nodup_singleton a)).trans ?_
  simp only [List.append_nil]

/-- The texts are the same if the array is not in itself, and not too many different arrays are one
in another from it on. -/
theorem joined_eq_display (hself : ¬ Relation.TransGen h.HasItem a a)
    (hdeep : ∀ path, List.IsChain h.HasItem (a :: path) → (a :: path).Nodup →
      path.length < maxDepth) : h.joined a = h.display (.array a) := by
  refine joined_eq_display_iff.mpr fun via c ⟨hchain, hfresh, _, hstops⟩ => ?_
  by_cases hc : c ∈ via
  · exact displayIn_array_eq_empty (.inl (List.mem_reverse.mpr hc))
  · have hreached : (a :: (via ++ [c])).Pairwise (Relation.TransGen h.HasItem) :=
      List.isChain_iff_pairwise.mp (hchain.imp fun _ _ => .single)
    have hca : c ≠ a := fun hca =>
      hself (hca ▸ (List.pairwise_cons.mp hreached).1 c (by simp))
    have hnodup : (a :: (via ++ [c])).Nodup := by
      simpa using hfresh.concat (show c ∉ a :: via by simp [hca, hc])
    have hlength := hdeep (via ++ [c]) hchain hnodup
    rw [List.length_append, List.length_singleton] at hlength
    exact absurd (hstops.resolve_left hca) (Nat.ne_of_lt hlength)

theorem displayIn_array_ne_empty (hc : c ∉ inside) (hsize : 2 ≤ (h.array c).size) :
    h.displayIn (left + 1) inside (.array c) ≠ "" := by
  rw [displayIn_array_of_notMem hc]
  exact intercalate_ne_empty _ (by rwa [Array.length_toList])

/-- The texts differ if an array of two items or more is left out of one of them. -/
theorem LeavesOut.joined_ne_display (hout : h.LeavesOut a via c) (hc : c ∉ via)
    (hsize : 2 ≤ (h.array c).size) : h.joined a ≠ h.display (.array a) := by
  intro heq
  obtain ⟨k, hk⟩ := Nat.exists_eq_add_of_lt hout.within
  have hempty := joined_eq_display_iff.mp heq via c hout
  rw [show maxDepth - via.length = k + 1 by omega] at hempty
  exact displayIn_array_ne_empty (mt List.mem_reverse.mp hc) hsize hempty

end Heap

end ModuleLoader.Script

namespace ModuleLoader

open Script

/-- `join` without a separator and the conversion to a string give the same text of an array just if
all that the conversion leaves out, and `join` does not, renders empty. That is so for an array that
is not in itself and not too deep, and it is not so as soon as one of the arrays left out has two
items. -/
theorem Machine.join_eq_conversion_iff (m : Machine) (a : ArrayId) :
    (∀ n, m.run (Evaluate.call (n + 1) (.native .join) (.array a) []) =
      some (.ok (.string (m.heap.joined a)), m)) ∧
    m.heap.binary .add (.string "") (.array a) = .string (m.heap.display (.array a)) ∧
    (m.heap.joined a = m.heap.display (.array a) ↔ ∀ via c, m.heap.LeavesOut a via c →
      m.heap.displayIn (Script.maxDepth - via.length) via.reverse (.array c) = "") ∧
    (¬ Relation.TransGen m.heap.HasItem a a →
      (∀ path, List.IsChain m.heap.HasItem (a :: path) → (a :: path).Nodup →
        path.length < Script.maxDepth) → m.heap.joined a = m.heap.display (.array a)) ∧
    ∀ via c, m.heap.LeavesOut a via c → c ∉ via → 2 ≤ (m.heap.array c).size →
      m.heap.joined a ≠ m.heap.display (.array a) := by
  refine ⟨fun n => ?_, ?_, Heap.joined_eq_display_iff, Heap.joined_eq_display,
    fun via c hout => hout.joined_ne_display⟩
  · rw [run_call_builtin (by simp) n]
    rfl
  · exact congrArg Value.string (String.empty_append ..)

/-- An array of a text and of itself, and one of a text and of an empty array. -/
def Sample.loops : Heap :=
  { Heap.empty with arrays := #[#[.string "x", .array 0], #[.string "x", .array 2], #[]] }

theorem Sample.loops_hasItem {c : ArrayId} : loops.HasItem 1 c ↔ c = 2 := by
  simp [Heap.HasItem, Heap.array, loops]

theorem Sample.not_loops_hasItem {c : ArrayId} : ¬ loops.HasItem 2 c := by
  simp [Heap.HasItem, Heap.array, loops]

theorem Machine.join_eq_conversion_iff_sample :
    Sample.loops.joined 1 = Sample.loops.display (.array 1) ∧
    Sample.loops.joined 0 ≠ Sample.loops.display (.array 0) := by
  obtain ⟨-, -, -, hsame, -⟩ := Machine.join_eq_conversion_iff (Sample.machineWith Sample.loops) 1
  obtain ⟨-, -, -, -, hdiffer⟩ := Machine.join_eq_conversion_iff (Sample.machineWith Sample.loops) 0
  constructor
  · refine hsame (fun hcycle => ?_) fun path hchain _ => ?_
    · obtain ⟨c, hc, hrest⟩ := Relation.TransGen.head'_iff.mp hcycle
      obtain rfl := Sample.loops_hasItem.mp hc
      obtain h21 | ⟨d, hd, -⟩ := Relation.ReflTransGen.cases_head hrest
      · exact absurd h21 (by decide)
      · exact Sample.not_loops_hasItem hd
    · match path, hchain with
      | [], _ => decide
      | [_], _ => exact (by decide : 1 < Script.maxDepth)
      | c :: d :: _, hchain =>
        obtain ⟨hc, hrest⟩ := List.isChain_cons_cons.mp hchain
        obtain rfl := Sample.loops_hasItem.mp hc
        exact absurd (List.isChain_cons_cons.mp hrest).1 Sample.not_loops_hasItem
  · have hself : Sample.loops.HasItem 0 0 := by simp [Heap.HasItem, Heap.array, Sample.loops]
    exact hdiffer [] 0 ⟨List.isChain_pair.mpr hself, by decide, by decide, .inl rfl⟩ List.not_mem_nil
      (by decide)

/-- An array of two items that has itself among them: `join` has it once more than the
conversion. -/
theorem Machine.join_ne_conversion :
    (Sample.machineWith Sample.loops).run (Evaluate.call 1 (.native .join) (.array 0) []) =
      some (.ok (.string "x,x,"), Sample.machineWith Sample.loops) ∧
    Sample.loops.binary .add (.string "") (.array 0) = .string "x," := by
  rw [run_call_builtin (by simp)]
  exact ⟨rfl, rfl⟩

end ModuleLoader
