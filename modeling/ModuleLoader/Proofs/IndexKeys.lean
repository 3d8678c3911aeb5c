import Mathlib.Data.List.Induction
import ModuleLoader.Proofs.ArrayWrites

/-! Which keys mean the same item of an array. `Object.keys` gives every index as its decimal text,
but a key may also spell it with zeros in front and with a plus sign. Such a key reads an item and
is not among the keys, and to write under it changes what the other spellings read. -/
namespace ModuleLoader.Script

/-! ### Spellings of an index -/

/-- Digits spell a number: its decimal text, with zeros in front of it allowed. -/
def SpellsNumber (ds : List Char) (n : Nat) : Prop :=
  ∃ zeros, ds = List.replicate zeros '0' ++ Number.decimalDigits n

/-- A key spells an index that a word holds, with a plus sign in front of the digits allowed. -/
def SpellsIndex (key : String) (i : Nat) : Prop :=
  i < indexBound ∧ (SpellsNumber key.toList i ∨ ∃ ds, key.toList = '+' :: ds ∧ SpellsNumber ds i)

/-- A key that spells an index in another way than its decimal text. -/
def IsAlias (key : String) : Prop :=
  ∃ i, SpellsIndex key i ∧ key ≠ toString i

theorem digit_lt_ten {c : Char} (hc : c.isDigit = true) : c.toNat - '0'.toNat < 10 := by
  have hnine := (Char.isDigit_iff_toNat.mp hc).2
  have hlast : '9'.toNat = '0'.toNat + 9 := rfl
  omega

theorem toDigits_digit {c : Char} (hc : c.isDigit = true) :
    Nat.toDigits 10 (c.toNat - '0'.toNat) = [c] := by
  have hzero := (Char.isDigit_iff_toNat.mp hc).1
  have hcode : '0'.toNat = 48 := rfl
  rw [Nat.toDigits_of_lt_base (digit_lt_ten hc)]
  refine congrArg ([·]) (Char.toNat_inj.mp ?_)
  rw [Nat.toNat_digitChar_of_lt_ten (digit_lt_ten hc)]
  omega

/-- Digits are zeros, and behind them the decimal text of what they spell. -/
theorem spellsNumber_ofDigits {ds : List Char} (hne : ds ≠ [])
    (hdigits : ∀ c ∈ ds, c.isDigit = true) : SpellsNumber ds (Number.ofDigits ds) := by
  induction ds using List.reverseRecOn with
  | nil => exact absurd rfl hne
  | append_singleton init c ih =>
    have hc : c.isDigit = true := hdigits c (by simp)
    have hlast := toDigits_digit hc
    have hvalue : Number.ofDigits (init ++ [c]) =
        10 * Number.ofDigits init + (c.toNat - '0'.toNat) := by
      simp [Number.ofDigits]
    rw [hvalue]
    obtain rfl | hinit := eq_or_ne init []
    · refine ⟨0, ?_⟩
      simpa [Number.ofDigits, Number.decimalDigits] using hlast.symm
    · obtain ⟨zeros, hzeros⟩ := ih hinit fun c hc => hdigits c (by simp [hc])
      obtain hzero | hpos := Nat.eq_zero_or_pos (Number.ofDigits init)
      · -- The digits so far are zeros, so the last is the whole text of the number.
        refine ⟨zeros + 1, ?_⟩
        rw [hzero] at hzeros
        rw [hzero, Nat.mul_zero, Nat.zero_add, Number.decimalDigits, hlast, hzeros,
          List.replicate_succ']
        rfl
      · refine ⟨zeros, ?_⟩
        have happend := Nat.toDigits_append_toDigits (by decide : 1 < 10) hpos (digit_lt_ten hc)
        rw [Number.decimalDigits, ← happend, hlast, ← List.append_assoc]
        exact congrArg (· ++ [c]) hzeros

theorem ofDigits_zeros (zeros : Nat) (ds : List Char) :
    Number.ofDigits (List.replicate zeros '0' ++ ds) = Number.ofDigits ds := by
  induction zeros with
  | zero => rfl
  | succ zeros ih => exact ih

theorem spellsNumber_iff {ds : List Char} {n : Nat} : SpellsNumber ds n ↔
    ds ≠ [] ∧ (∀ c ∈ ds, c.isDigit = true) ∧ Number.ofDigits ds = n := by
  constructor
  · rintro ⟨zeros, rfl⟩
    obtain ⟨c, more, hdigits, -⟩ := Json.decimalDigits_cons n
    refine ⟨by simp [hdigits], fun c hc => ?_, ?_⟩
    · obtain hc | hc := List.mem_append.mp hc
      · rw [List.eq_of_mem_replicate hc]
        rfl
      · exact Json.isDigit_of_mem_decimalDigits hc
    · rw [ofDigits_zeros, ofDigits_decimalDigits]
  · rintro ⟨hne, hdigits, rfl⟩
    exact spellsNumber_ofDigits hne hdigits

theorem indexOfKey?_eq_some_iff {key : String} {i : Nat} :
    indexOfKey? key = some i ↔ SpellsIndex key i := by
  have hdigits : ∀ ds : List Char,
      (if ds.isEmpty || !ds.all Char.isDigit then none
        else if Number.ofDigits ds < indexBound then some (Number.ofDigits ds) else none) =
          some i ↔ i < indexBound ∧ SpellsNumber ds i := by
    intro ds
    rw [Option.ite_none_left_eq_some, Option.ite_none_right_eq_some, spellsNumber_iff,
      Bool.or_eq_true, Bool.not_eq_true', not_or, List.isEmpty_iff, Bool.not_eq_false,
      List.all_eq_true, Option.some.injEq]
    constructor
    · rintro ⟨⟨hne, hall⟩, hlt, rfl⟩
      exact ⟨hlt, hne, hall, rfl⟩
    · rintro ⟨hlt, hne, hall, rfl⟩
      exact ⟨⟨hne, hall⟩, hlt, rfl⟩
  unfold indexOfKey? SpellsIndex
  split
  next ds hplus =>
    -- A plus sign is no digit, so the key itself spells no number.
    rw [hdigits ds, hplus]
    refine and_congr_right fun _ => ⟨fun h => .inr ⟨ds, rfl, h⟩, ?_⟩
    rintro (hkey | ⟨ds', heq, h⟩)
    · exact absurd ((spellsNumber_iff.mp hkey).2.1 '+' (by simp)) (by decide)
    · obtain ⟨-, rfl⟩ := List.cons.inj heq
      exact h
  next hplus =>
    rw [hdigits]
    refine and_congr_right fun _ => ⟨.inl, ?_⟩
    rintro (h | ⟨ds, heq, -⟩)
    · exact h
    · exact absurd heq (hplus ds)

theorem spellsIndex_toString {i : Nat} (hi : i < indexBound) : SpellsIndex (toString i) i := by
  rw [← indexOfKey?_eq_some_iff, indexOfKey?_toString, if_pos hi]

theorem SpellsIndex.unique {key : String} {i j : Nat} (hi : SpellsIndex key i)
    (hj : SpellsIndex key j) : i = j :=
  Option.some.inj ((indexOfKey?_eq_some_iff.mpr hi).symm.trans (indexOfKey?_eq_some_iff.mpr hj))

theorem SpellsIndex.ne_length {key : String} {i : Nat} (h : SpellsIndex key i) :
    key ≠ "length" := by
  rintro rfl
  have hnone : indexOfKey? "length" = none := by decide
  rw [← indexOfKey?_eq_some_iff, hnone] at h
  cases h

theorem SpellsIndex.eq_of_toString {i j : Nat} (h : SpellsIndex (toString j) i) : j = i := by
  rw [← indexOfKey?_eq_some_iff, indexOfKey?_toString] at h
  exact Option.some.inj (Option.ite_none_right_eq_some.mp h).2

theorem not_isAlias_toString (i : Nat) : ¬IsAlias (toString i) := by
  rintro ⟨j, hj, hne⟩
  exact hne (congrArg toString hj.eq_of_toString)

theorem SpellsIndex.eq_toString {key : String} {i : Nat} (h : SpellsIndex key i)
    (hkey : ¬IsAlias key) : key = toString i := by
  by_contra hne
  exact hkey ⟨i, h, hne⟩

namespace Heap

variable {h : Heap} {a : ArrayId} {key key' : String}

/-- The keys of an array, as `Object.keys` gives them. -/
def itemKeys (h : Heap) (a : ArrayId) : List String :=
  (List.range (h.array a).size).map fun i => toString i

theorem mem_itemKeys : key ∈ h.itemKeys a ↔ ∃ i < (h.array a).size, key = toString i := by
  simp [itemKeys, eq_comm]

/-- A key that is no name of what all arrays have reads the item whose index it spells, and nothing
else. -/
theorem getProperty_array_iff (hkey : key ∉ ["length", "push", "join"]) {v : Value}
    (hv : v ≠ .undefined) : h.getProperty (.array a) key = .ok v ↔
      ∃ i, SpellsIndex key i ∧ (h.array a)[i]? = some v := by
  simp only [List.mem_cons, List.not_mem_nil, or_false, not_or] at hkey
  obtain ⟨hlength, hpush, hjoin⟩ := hkey
  rw [getProperty, Except.ok.injEq, arrayProperty, if_neg hlength]
  cases hindex : indexOfKey? key with
  | none =>
    have hfunction : arrayFunction? key = none := by
      unfold arrayFunction?
      split
      · exact absurd rfl hpush
      · exact absurd rfl hjoin
      · rfl
    rw [hfunction]
    refine ⟨fun h => absurd h.symm hv, ?_⟩
    rintro ⟨i, hi, -⟩
    rw [indexOfKey?_eq_some_iff.mpr hi] at hindex
    cases hindex
  | some i =>
    have hi := indexOfKey?_eq_some_iff.mp hindex
    dsimp only
    constructor
    · intro h
      refine ⟨i, hi, ?_⟩
      rw [Array.getD_eq_getD_getElem?] at h
      cases hitem : (_ : Array Value)[i]? with
      | none => rw [hitem] at h; exact absurd h.symm hv
      | some w => rw [hitem] at h; exact congrArg some h
    · rintro ⟨j, hj, hitem⟩
      rw [hi.unique hj, Array.getD_eq_getD_getElem?, hitem]
      rfl

theorem getProperty_array_congr {h' : Heap} (hsize : (h'.array a).size = (h.array a).size)
    (hitems : ∀ i, SpellsIndex key i → (h'.array a)[i]? = (h.array a)[i]?) :
    h'.getProperty (.array a) key = h.getProperty (.array a) key := by
  rw [getProperty, getProperty, arrayProperty, arrayProperty, hsize]
  cases hindex : indexOfKey? key with
  | none => rfl
  | some i =>
    have hitem := hitems i (indexOfKey?_eq_some_iff.mp hindex)
    dsimp only
    rw [Array.getD_eq_getD_getElem?, Array.getD_eq_getD_getElem?, hitem]

/-- A write under one spelling of the index of an item is read under every other. -/
theorem getProperty_putProperty_same {i : Nat} {v : Value} (hi : i < (h.array a).size)
    (hkey : SpellsIndex key i) (hkey' : SpellsIndex key' i) :
    (h.putProperty (.array a) key v).getProperty (.array a) key' = .ok v := by
  have ha : a < h.arrays.size := by
    by_contra ha
    simp [array, ha] at hi
  have hitem : ((h.setItem a i v).array a)[i]? = some v := by
    rw [getElem?_setItem ha, if_pos rfl]
  rw [putProperty_array (indexOfKey?_eq_some_iff.mpr hkey)]
  simp only [getProperty, arrayProperty, if_neg hkey'.ne_length,
    indexOfKey?_eq_some_iff.mpr hkey']
  rw [Array.getD_eq_getD_getElem?, hitem]
  rfl

/-- A write that does not make an array longer is not read under a key that spells another index. -/
theorem getProperty_putProperty_apart {v : Value}
    (hsize : ((h.putProperty (.array a) key v).array a).size = (h.array a).size)
    (hapart : ∀ i < (h.array a).size, SpellsIndex key i → ¬SpellsIndex key' i) :
    (h.putProperty (.array a) key v).getProperty (.array a) key' =
      h.getProperty (.array a) key' := by
  refine getProperty_array_congr hsize fun j hj => ?_
  cases hindex : indexOfKey? key with
  | none => rw [putProperty_array_of_none hindex]
  | some i =>
    rw [putProperty_array hindex] at hsize ⊢
    have hi := indexOfKey?_eq_some_iff.mp hindex
    by_cases ha : a < h.arrays.size
    · rw [size_setItem ha] at hsize
      have hlt : i < (h.array a).size := by omega
      have hne : j ≠ i := by
        rintro rfl
        exact hapart j hlt hi hj
      rw [getElem?_setItem ha, if_neg hne]
      split
      · rfl
      · rw [if_neg (by omega), Array.getElem?_eq_none (by omega)]
    · simp [setItem, modifyArray, array, ha]

end Heap

end ModuleLoader.Script

namespace ModuleLoader

open Script

namespace Machine

/-- The keys of an array are the decimal texts of its indices. What a key reads that is no name of
what all arrays have, is an item whose index it spells; it is among the keys unless it spells it in
another way. A write that leaves an array's length as it is, is read under every key that spells the
same index of an item, and under no others: so not under another key, if no key is an alias. -/
theorem array_keys (m : Machine) (a : ArrayId) :
    (∀ n this, ∃ h', m.run (Evaluate.call (n + 1) (.native .keys) this [.array a]) =
        some (.ok (.array m.heap.arrays.size), { m with heap := h' }) ∧
      h'.array m.heap.arrays.size = ((m.heap.itemKeys a).map Value.string).toArray) ∧
    (∀ key ∉ ["length", "push", "join"], ∀ v ≠ Value.undefined,
      (m.heap.getProperty (.array a) key = .ok v ↔
        ∃ i, SpellsIndex key i ∧ (m.heap.array a)[i]? = some v) ∧
      (m.heap.getProperty (.array a) key = .ok v →
        (key ∈ m.heap.itemKeys a ↔ ¬IsAlias key))) ∧
    ∀ key v m', m.run (Evaluate.putProperty (.array a) key v) = some (.ok (), m') →
      (m'.heap.array a).size = (m.heap.array a).size → ∀ key',
        (∀ i < (m.heap.array a).size, SpellsIndex key i → SpellsIndex key' i →
          m'.heap.getProperty (.array a) key' = .ok v) ∧
        ((∀ i < (m.heap.array a).size, SpellsIndex key i → ¬SpellsIndex key' i) →
          m'.heap.getProperty (.array a) key' = m.heap.getProperty (.array a) key') ∧
        (key ≠ key' → ¬IsAlias key → ¬IsAlias key' →
          m'.heap.getProperty (.array a) key' = m.heap.getProperty (.array a) key') := by
  refine ⟨fun n this => ?_, fun key hkey v hv => ?_, fun key v m' hrun hsize key' => ?_⟩
  · let keys := (m.heap.itemKeys a).map Value.string
    refine ⟨(m.heap.newArray keys.toArray).2, ?_, ?_⟩
    · have hkeys : keys = (List.range (m.heap.array a).size).map fun i =>
          Value.string (toString i) := List.map_map
      rw [run_call_builtin (by simp), hkeys]
      rfl
    · simp [keys, Heap.newArray, Heap.array]
  · have hread := Heap.getProperty_array_iff (h := m.heap) (a := a) hkey hv
    refine ⟨hread, fun hread' => ?_⟩
    obtain ⟨i, hi, hitem⟩ := hread.mp hread'
    rw [Heap.mem_itemKeys]
    constructor
    · rintro ⟨j, -, rfl⟩
      exact not_isAlias_toString j
    · intro halias
      exact ⟨i, (Array.getElem?_eq_some_iff.mp hitem).1, hi.eq_toString halias⟩
  · have hput : m'.heap = m.heap.putProperty (.array a) key v := by
      cases hfault : m.heap.putFault? (.array a) key with
      | none =>
        rw [run_putProperty_ok hfault] at hrun
        obtain ⟨-, rfl⟩ := Prod.mk.inj (Option.some.inj hrun)
        rfl
      | some e =>
        rw [run_putProperty_error hfault] at hrun
        cases hrun
    rw [hput] at hsize ⊢
    have hapart : (∀ i < (m.heap.array a).size, SpellsIndex key i → ¬SpellsIndex key' i) → _ :=
      Heap.getProperty_putProperty_apart hsize
    refine ⟨fun i hi hk hk' => Heap.getProperty_putProperty_same hi hk hk', hapart, ?_⟩
    intro hne hk hk'
    refine hapart fun i _ hi hi' => hne ?_
    rw [hi.eq_toString hk, hi'.eq_toString hk']

theorem array_keys_sample :
    let h : Heap := { Heap.empty with arrays := #[#[.string "x"]] }
    h.getProperty (.array 0) "0" = .ok (.string "x") ∧ "0" ∈ h.itemKeys 0 ∧
      (h.putProperty (.array 0) "+00" .null).getProperty (.array 0) "0" = .ok .null := by
  intro h
  obtain ⟨-, hread, hwrite⟩ := array_keys (Sample.machineWith h) 0
  obtain ⟨hread, hlisted⟩ := hread "0" (by decide) (.string "x") nofun
  have hzero : SpellsIndex "0" 0 := spellsIndex_toString (by decide)
  have hplus : SpellsIndex "+00" 0 := ⟨by decide, .inr ⟨_, rfl, 1, rfl⟩⟩
  have hitem := hread.mpr ⟨0, hzero, rfl⟩
  refine ⟨hitem, (hlisted hitem).mpr (not_isAlias_toString 0), ?_⟩
  have hnone : h.putFault? (.array 0) "+00" = none := by decide +kernel
  exact (hwrite "+00" .null _ (run_putProperty_ok hnone) rfl "0").1 0 (by decide) hplus hzero

/-- A key may read an item and not be among the keys, and a write under it is read under another. -/
theorem array_keys_alias :
    let h : Heap := { Heap.empty with arrays := #[#[.string "x"]] }
    h.getProperty (.array 0) "00" = .ok (.string "x") ∧ "00" ∉ h.itemKeys 0 ∧
      ((h.putProperty (.array 0) "00" .null).array 0).size = (h.array 0).size ∧
      (h.putProperty (.array 0) "00" .null).getProperty (.array 0) "0" ≠
        h.getProperty (.array 0) "0" := by
  refine ⟨rfl, by decide +kernel, rfl, nofun⟩

end Machine

end ModuleLoader
