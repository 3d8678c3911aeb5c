import ModuleLoader.Proofs.Characters
import ModuleLoader.Proofs.Runs
import ModuleLoader.Proofs.Sights

/-! What a write to an item of an array does. It sets the item, in the array that all who have it
share; what it skips behind the end becomes `undefined`, and it may not skip too much. Indices are
words of 64 bits in a machine: no sum of them overflows on the way, and a text that would spell a
larger number spells no index. -/
namespace ModuleLoader.Script

/-! ### Sums in words -/

/-- The sum of two words, unless it overflows. -/
def wordSum? (a b : Nat) : Option Nat :=
  if a + b < indexBound then some (a + b) else none

/-- The number that digits spell behind those of a word, unless it overflows. -/
def wordOfDigits? (word : Nat) : List Char → Option Nat
  | [] => some word
  | c :: more =>
    if 10 * word < indexBound then
      (wordSum? (10 * word) (c.toNat - '0'.toNat)).bind fun n => wordOfDigits? n more
    else none

theorem wordSum?_of_lt {a b : Nat} (h : a + b < indexBound) : wordSum? a b = some (a + b) :=
  if_pos h

theorem wordOfDigits?_eq (ds : List Char) {word : Nat} (hword : word < indexBound) :
    wordOfDigits? word ds =
      if Nat.ofDigitChars 10 ds word < indexBound then some (Nat.ofDigitChars 10 ds word)
      else none := by
  induction ds generalizing word with
  | nil => exact (if_pos hword).symm
  | cons c more ih =>
    have hgrows := Json.le_ofDigitChars more (10 * word + (c.toNat - '0'.toNat))
    rw [wordOfDigits?, Nat.ofDigitChars_cons, wordSum?]
    by_cases hnext : 10 * word + (c.toNat - '0'.toNat) < indexBound
    · rw [if_pos hnext, Option.bind_some, ih hnext, if_pos (Nat.lt_of_add_right_lt hnext)]
    · rw [if_neg hnext, Option.bind_none, ite_self,
        if_neg fun hlt => hnext (Nat.lt_of_le_of_lt hgrows hlt)]

/-- The index that a key spells, read in words. -/
def indexInWords? (key : String) : Option Nat :=
  let ds := match key.toList with
    | '+' :: ds => ds
    | ds => ds
  if ds.isEmpty || !ds.all Char.isDigit then none else wordOfDigits? 0 ds

theorem indexInWords?_eq (key : String) : indexInWords? key = indexOfKey? key := by
  simp only [indexInWords?, indexOfKey?, wordOfDigits?_eq _ (by decide : 0 < indexBound)]
  rfl

theorem lt_of_indexOfKey? {key : String} {i : Nat} (hkey : indexOfKey? key = some i) :
    i < indexBound := by
  obtain ⟨hlt, hi⟩ := Option.ite_none_right_eq_some.mp (Option.ite_none_left_eq_some.mp hkey).2
  exact Option.some.inj hi ▸ hlt

namespace Heap

variable {h : Heap} {a : ArrayId} {i : Nat} {v : Value}

/-- A write to an item of an array as a machine with words carries it out: either the array is long
enough, or it is first made so. There is no result if a sum overflows. -/
def putItemInWords? (h : Heap) (a : ArrayId) (i : Nat) (v : Value) :
    Option (Except PropertyFault Heap) :=
  (wordSum? (h.array a).size maxGrowth).bind fun limit =>
    if limit < i then some (.error .tooFarPastEnd)
    else if (h.array a).size ≤ i then
      (wordSum? i 1).map fun size =>
        .ok (h.modifyArray a fun items => (items.rightpad size .undefined).set! i v)
    else some (.ok (h.modifyArray a fun items => items.set! i v))

/-- A write to an array under a key, in words. -/
def putInWords? (h : Heap) (a : ArrayId) (key : String) (v : Value) :
    Option (Except PropertyFault Heap) :=
  (indexInWords? key).elim (some (.ok h)) fun i => h.putItemInWords? a i v

/-- A write to a property: the heap after it, or why there can be none. -/
def put (h : Heap) (target : Value) (key : String) (v : Value) : Except PropertyFault Heap :=
  match h.putFault? target key with
  | some e => .error e
  | none => .ok (h.putProperty target key v)

theorem put_of_fault {target : Value} {key : String} {e : PropertyFault}
    (he : h.putFault? target key = some e) : h.put target key v = .error e := by
  rw [put, he]

theorem put_of_no_fault {target : Value} {key : String} (hnone : h.putFault? target key = none) :
    h.put target key v = .ok (h.putProperty target key v) := by
  rw [put, hnone]

section Keys

variable {key : String}

theorem putFault?_array (hkey : indexOfKey? key = some i) : h.putFault? (.array a) key =
    if (h.array a).size + maxGrowth < i then some .tooFarPastEnd else none := by
  simp only [putFault?, hkey]

theorem putFault?_array_of_none (hkey : indexOfKey? key = none) :
    h.putFault? (.array a) key = none := by
  simp only [putFault?, hkey]

theorem putProperty_array (hkey : indexOfKey? key = some i) :
    h.putProperty (.array a) key v = h.setItem a i v := by
  simp only [putProperty, hkey]

theorem putProperty_array_of_none (hkey : indexOfKey? key = none) :
    h.putProperty (.array a) key v = h := by
  simp only [putProperty, hkey]

end Keys

/-! ### The array after a write -/

theorem array_modifyArray (ha : a < h.arrays.size) (f : Array Value → Array Value) :
    (h.modifyArray a f).array a = f (h.array a) := by
  simp [array, modifyArray, ha, Array.getElem_modify]

theorem modifyArray_congr {f g : Array Value → Array Value}
    (hfg : f (h.array a) = g (h.array a)) : h.modifyArray a f = h.modifyArray a g := by
  have harrays : h.arrays.modify a f = h.arrays.modify a g := by
    apply Array.ext
    · simp
    · intro j hj hj'
      rw [Array.getElem_modify, Array.getElem_modify]
      split
      next hja =>
        subst hja
        rw [Array.size_modify] at hj
        simpa [array, hj] using hfg
      next => rfl
  rw [modifyArray, harrays, modifyArray]

theorem set!_size_push (items : Array Value) (v w : Value) :
    (items.push v).set! items.size w = items.push w := by
  rw [Array.set!_eq_setIfInBounds, Array.setIfInBounds_def, dif_pos (by simp), Array.set_push,
    dif_neg (Nat.lt_irrefl _)]

/-- An array that was made long enough has only the last item to be set. -/
theorem set!_rightpad {items : Array Value} (hi : items.size ≤ i) (v : Value) :
    (items.rightpad (i + 1) .undefined).set! i v =
      (items ++ Array.replicate (i - items.size) Value.undefined).push v := by
  have hsize : (items ++ Array.replicate (i - items.size) Value.undefined).size = i := by
    rw [Array.size_append, Array.size_replicate, Nat.add_sub_cancel' hi]
  have hpad : items.rightpad (i + 1) .undefined =
      (items ++ Array.replicate (i - items.size) Value.undefined).push .undefined := by
    rw [← Array.append_push, ← Array.replicate_succ, ← Nat.sub_add_comm hi]
    rfl
  rw [hpad]
  generalize items ++ Array.replicate (i - items.size) Value.undefined = padded at hsize ⊢
  subst hsize
  exact set!_size_push padded _ v

theorem putItemInWords?_eq (hsize : (h.array a).size < Number.twoTo 63) (hi : i < indexBound) :
    h.putItemInWords? a i v = some (if (h.array a).size + maxGrowth < i then .error .tooFarPastEnd
      else .ok (h.setItem a i v)) := by
  have hbound : Number.twoTo 63 + maxGrowth + 1 < indexBound := by decide
  rw [putItemInWords?, wordSum?_of_lt (by omega), Option.bind_some]
  by_cases hfar : (h.array a).size + maxGrowth < i
  · rw [if_pos hfar, if_pos hfar]
  · rw [if_neg hfar, if_neg hfar, setItem]
    by_cases hend : (h.array a).size ≤ i
    · rw [if_pos hend, wordSum?_of_lt (by omega), Option.map_some]
      refine congrArg (fun h => some (Except.ok h)) (modifyArray_congr ?_)
      rw [if_neg (by omega)]
      exact set!_rightpad hend v
    · rw [if_neg hend]
      refine congrArg (fun h => some (Except.ok h)) (modifyArray_congr ?_)
      rw [if_pos (by omega)]

theorem putInWords?_eq (hsize : (h.array a).size < Number.twoTo 63) (key : String) :
    h.putInWords? a key v = some (h.put (.array a) key v) := by
  rw [putInWords?, indexInWords?_eq]
  cases hkey : indexOfKey? key with
  | none =>
    rw [Option.elim_none, put_of_no_fault (putFault?_array_of_none hkey),
      putProperty_array_of_none hkey]
  | some i =>
    have hi : i < indexBound := lt_of_indexOfKey? hkey
    rw [Option.elim_some, putItemInWords?_eq hsize hi]
    by_cases hfar : (h.array a).size + maxGrowth < i
    · rw [if_pos hfar, put_of_fault (by rw [putFault?_array hkey, if_pos hfar])]
    · rw [if_neg hfar, put_of_no_fault (by rw [putFault?_array hkey, if_neg hfar]),
        putProperty_array hkey]

theorem getElem?_setItem (ha : a < h.arrays.size) (j : Nat) :
    ((h.setItem a i v).array a)[j]? =
      if j = i then some v else if j < (h.array a).size then (h.array a)[j]?
      else if j < i then some .undefined else none := by
  rw [setItem, array_modifyArray ha]
  generalize h.array a = items
  split
  next hi =>
    rw [Array.set!_eq_setIfInBounds, Array.getElem?_setIfInBounds]
    obtain rfl | hj := eq_or_ne i j
    · rw [if_pos rfl, if_pos hi, if_pos rfl]
    · rw [if_neg hj, if_neg hj.symm]
      split
      · rfl
      · rw [if_neg (by omega), Array.getElem?_eq_none (by omega)]
  next hi =>
    replace hi := Nat.le_of_not_lt hi
    rw [Array.getElem?_push, Array.size_append, Array.size_replicate, Nat.add_sub_cancel' hi,
      Array.getElem?_append, Array.getElem?_replicate]
    refine ite_congr rfl (fun _ => rfl) fun _ => ite_congr rfl (fun _ => rfl) fun hj => ?_
    exact if_congr (by omega) rfl rfl

theorem size_setItem (ha : a < h.arrays.size) :
    ((h.setItem a i v).array a).size = max (h.array a).size (i + 1) := by
  rw [setItem, array_modifyArray ha]
  split
  next hi => rw [Array.set!_eq_setIfInBounds, Array.size_setIfInBounds, Nat.max_eq_left hi]
  next hi =>
    rw [Array.size_push, Array.size_append, Array.size_replicate]
    omega

theorem array_setItem_of_ne {b : ArrayId} (hb : b ≠ a) :
    (h.setItem a i v).array b = h.array b :=
  getD_modify_of_ne hb.symm _ _

theorem getProperty_array_index {j : Nat} (hj : j < indexBound) :
    h.getProperty (.array a) (toString j) = .ok ((h.array a).getD j .undefined) := by
  rw [getProperty, arrayProperty, if_neg (toString_ne_length j), indexOfKey?_toString, if_pos hj]

/-- From one heap to the other, an item of an array was set, and nothing else was done: the items up
to it are there, and whoever has the array finds it so. -/
structure Written (h h' : Heap) (a : ArrayId) (i : Nat) (v : Value) : Prop where
  size : (h'.array a).size = max (h.array a).size (i + 1)
  item : (h'.array a)[i]? = some v
  kept : ∀ j < (h.array a).size, j ≠ i → (h'.array a)[j]? = (h.array a)[j]?
  skipped : ∀ j, (h.array a).size ≤ j → j < i → (h'.array a)[j]? = some .undefined
  length : ∀ target : Value, target.strictEq (.array a) = true →
    h'.getProperty target "length" = .ok (.number (Float.ofNat (max (h.array a).size (i + 1))))
  items : ∀ target : Value, target.strictEq (.array a) = true → ∀ j < indexBound,
    h'.getProperty target (toString j) = .ok ((h'.array a).getD j .undefined)
  others : ∀ b ≠ a, h'.array b = h.array b
  arrays : h'.arrays.size = h.arrays.size
  objects : h'.objects = h.objects
  frames : h'.frames = h.frames
  closures : h'.closures = h.closures

theorem eq_of_strictEq_array {target : Value} (ht : target.strictEq (.array a) = true) :
    target = .array a := by
  cases target with
  | array b => exact congrArg Value.array (eq_of_beq ht)
  | _ => cases ht

theorem written_setItem (ha : a < h.arrays.size) : h.Written (h.setItem a i v) a i v where
  size := size_setItem ha
  item := by rw [getElem?_setItem ha, if_pos rfl]
  kept j hj hne := by rw [getElem?_setItem ha, if_neg hne, if_pos hj]
  skipped j hj hi := by
    rw [getElem?_setItem ha, if_neg (Nat.ne_of_lt hi), if_neg (Nat.not_lt.mpr hj), if_pos hi]
  length target ht := by
    obtain rfl := eq_of_strictEq_array ht
    rw [← size_setItem ha]
    rfl
  items target ht j hj := by
    obtain rfl := eq_of_strictEq_array ht
    exact getProperty_array_index hj
  others b hb := array_setItem_of_ne hb
  arrays := Array.size_modify ..
  objects := rfl
  frames := rfl
  closures := rfl

/-- All that was in a heap is there as it was; there may be new objects. -/
structure Unharmed (h h' : Heap) : Prop where
  objects : ∀ id < h.objects.size, h'.object id = h.object id
  arrays : h'.arrays = h.arrays
  frames : h'.frames = h.frames
  closures : h'.closures = h.closures

theorem unharmed_newObject (h : Heap) (d : Dict Value) : h.Unharmed (h.newObject d).2 where
  objects _ hid := getD_push_of_lt hid _ _
  arrays := rfl
  frames := rfl
  closures := rfl

theorem object_newObject (h : Heap) (d : Dict Value) :
    (h.newObject d).2.object h.objects.size = d :=
  getD_push_size ..

end Heap

end ModuleLoader.Script

namespace ModuleLoader

open Script

namespace Machine

variable {m : Machine} {a : ArrayId} {i : Nat}

theorem run_putProperty_error {target v : Value} {key : String} {e : PropertyFault}
    (he : m.heap.putFault? target key = some e) :
    m.run (Evaluate.putProperty target key v) =
      some (.error (.thrown (.object m.heap.objects.size)), m.raised e.errorName e.message) := by
  unfold Evaluate.putProperty
  rw [run_bind_ok run_heap, he]
  exact run_raise _ _

theorem run_putProperty_ok {target v : Value} {key : String}
    (hnone : m.heap.putFault? target key = none) :
    m.run (Evaluate.putProperty target key v) =
      some (.ok (), { m with heap := m.heap.putProperty target key v }) := by
  unfold Evaluate.putProperty
  rw [run_bind_ok run_heap, hnone]
  exact run_modifyHeap _

/-- A write to an array, under the decimal text of an index: up to a limit behind the end of the
array it sets the item, and does nothing else; beyond that it throws a `RangeError`, which is new,
and all else is as it was; beyond what a word holds it does nothing at all. In words, no sum on the
way overflows if the array is shorter than half of what they hold, whatever the key is. -/
theorem array_write (m : Machine) {a : ArrayId} (ha : a < m.heap.arrays.size) (v : Value) :
    (∀ i < indexBound, i ≤ (m.heap.array a).size + maxGrowth →
      ∃ h', m.run (Evaluate.putProperty (.array a) (toString i) v) =
          some (.ok (), { m with heap := h' }) ∧ m.heap.Written h' a i v) ∧
    (∀ i < indexBound, (m.heap.array a).size + maxGrowth < i →
      ∃ id h', m.run (Evaluate.putProperty (.array a) (toString i) v) =
          some (.error (.thrown (.object id)), { m with heap := h' }) ∧
        m.heap.Unharmed h' ∧ m.heap.objects.size ≤ id ∧ h'.object id =
          [("name", .string "RangeError"), ("message", .string "Invalid array length")]) ∧
    (∀ i, indexBound ≤ i →
      m.run (Evaluate.putProperty (.array a) (toString i) v) = some (.ok (), m)) ∧
    ((m.heap.array a).size < Number.twoTo 63 → ∀ key,
      m.heap.putInWords? a key v = some (m.heap.put (.array a) key v)) := by
  refine ⟨fun i hi hnear => ?_, fun i hi hfar => ?_, fun i hi => ?_, Heap.putInWords?_eq⟩
  · have hkey : indexOfKey? (toString i) = some i := by rw [indexOfKey?_toString, if_pos hi]
    have hnone : m.heap.putFault? (.array a) (toString i) = none := by
      rw [Heap.putFault?_array hkey, if_neg (Nat.not_lt.mpr hnear)]
    refine ⟨_, run_putProperty_ok hnone, ?_⟩
    rw [Heap.putProperty_array hkey]
    exact Heap.written_setItem ha
  · have hkey : indexOfKey? (toString i) = some i := by rw [indexOfKey?_toString, if_pos hi]
    have hfault : m.heap.putFault? (.array a) (toString i) = some .tooFarPastEnd := by
      rw [Heap.putFault?_array hkey, if_pos hfar]
    refine ⟨_, _, run_putProperty_error hfault, ?_, le_rfl, ?_⟩
    · exact Heap.unharmed_newObject _ _
    · exact Heap.object_newObject _ _
  · have hkey : indexOfKey? (toString i) = none := by
      rw [indexOfKey?_toString, if_neg (Nat.not_lt.mpr hi)]
    rw [run_putProperty_ok (Heap.putFault?_array_of_none hkey),
      Heap.putProperty_array_of_none hkey]

theorem array_write_sample :
    let h : Heap := { Heap.empty with arrays := #[#[.null, .null], #[]] }
    let m := Sample.machineWith h
    let write (i : Nat) := m.run (Evaluate.putProperty (.array 0) (toString i) (.bool true))
    (∃ h', write 4 = some (.ok (), { m with heap := h' }) ∧ h.Written h' 0 4 (.bool true)) ∧
    (∃ id h', write (2 + maxGrowth + 1) =
      some (.error (.thrown (.object id)), { m with heap := h' }) ∧ h.Unharmed h') ∧
    write indexBound = some (.ok (), m) ∧
    h.putInWords? 0 "18446744073709551615" .null = some (.error .tooFarPastEnd) := by
  intro h m write
  obtain ⟨hnear, hfar, hbeyond, -⟩ :=
    array_write m (show 0 < m.heap.arrays.size by decide) (.bool true)
  obtain ⟨id, h', hrun, hkept, -⟩ := hfar (2 + maxGrowth + 1) (by decide) (by decide)
  refine ⟨hnear 4 (by decide) (by decide), ⟨id, h', hrun, hkept⟩, hbeyond _ le_rfl, ?_⟩
  have hfault : h.putFault? (.array 0) "18446744073709551615" = some .tooFarPastEnd := by
    decide +kernel
  have hwords := (array_write m (show 0 < m.heap.arrays.size by decide) .null).2.2.2 (by decide)
  refine (hwords "18446744073709551615").trans (congrArg some ?_)
  show h.put _ _ _ = _
  rw [Heap.put, hfault]

end Machine

end ModuleLoader
