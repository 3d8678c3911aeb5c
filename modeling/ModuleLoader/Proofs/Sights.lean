import Mathlib.Order.Basic
import ModuleLoader.Proofs.Globals

/-! What is in sight in a heap: the objects that are there and are not hidden. As long as all that
is stored refers to such objects only, whatever is read refers to such objects again, and what is
done to them leaves the hidden ones as they are, so that these stay hidden. -/
namespace ModuleLoader

open Script

namespace Dict

variable {α : Type} {P : α → Prop} {d : Dict α}

/-- All values of the dictionary are of this kind. -/
def Each (P : α → Prop) (d : Dict α) : Prop :=
  ∀ p ∈ d, P p.2

theorem Each.mono {P' : α → Prop} (h : d.Each P) (hP : ∀ a, P a → P' a) : d.Each P' :=
  fun p hp => hP p.2 (h p hp)

theorem Each.of_get? (h : d.Each P) {key : String} {a : α} (ha : d.get? key = some a) : P a :=
  h _ (mem_of_get? ha)

theorem each_nil : Each P [] :=
  nofun

theorem Each.cons {key : String} {a : α} (ha : P a) (h : d.Each P) : Each P ((key, a) :: d) :=
  List.forall_mem_cons.mpr ⟨ha, h⟩

theorem Each.insert (h : d.Each P) (key : String) {a : α} (ha : P a) :
    (d.insert key a).Each P := by
  induction d with
  | nil => exact each_nil.cons ha
  | cons first rest ih =>
    obtain ⟨k, b⟩ := first
    obtain ⟨hb, hrest⟩ := List.forall_mem_cons.mp h
    rw [Dict.insert]
    split
    · exact Each.cons ha hrest
    · exact Each.cons hb (ih hrest)

theorem Each.ofPairs {pairs : Dict α} (h : pairs.Each P) : (Dict.ofPairs pairs).Each P := by
  have hfold (d : Dict α) (hd : d.Each P) :
      (pairs.foldl (fun d pair => d.insert pair.1 pair.2) d).Each P := by
    induction pairs generalizing d with
    | nil => exact hd
    | cons pair rest ih =>
      obtain ⟨hpair, hrest⟩ := List.forall_mem_cons.mp h
      exact ih hrest _ (hd.insert pair.1 hpair)
  exact hfold [] each_nil

end Dict

section Items

variable {α : Type} {P : α → Prop} {xs : Array α}

theorem forall_mem_push {a : α} (h : ∀ x ∈ xs, P x) (ha : P a) : ∀ x ∈ xs.push a, P x := by
  intro x hx
  obtain hx | rfl := Array.mem_push.mp hx
  · exact h x hx
  · exact ha

theorem forall_mem_modify {f : α → α} (h : ∀ x ∈ xs, P x) (hf : ∀ x, P x → P (f x)) (i : Nat) :
    ∀ x ∈ xs.modify i f, P x := by
  intro x hx
  obtain ⟨j, hj, rfl⟩ := Array.mem_iff_getElem.mp hx
  rw [Array.getElem_modify]
  split
  · exact hf _ (h _ (Array.getElem_mem _))
  · exact h _ (Array.getElem_mem _)

theorem forall_mem_set {a : α} (h : ∀ x ∈ xs, P x) (ha : P a) (i : Nat) :
    ∀ x ∈ xs.set! i a, P x := by
  intro x hx
  obtain hx | rfl := Array.mem_or_eq_of_mem_setIfInBounds hx
  · exact h x hx
  · exact ha

theorem of_getD {a : α} (h : ∀ x ∈ xs, P x) (ha : P a) (i : Nat) : P (xs.getD i a) := by
  rw [Array.getD_eq_getD_getElem?]
  cases hx : xs[i]? with
  | none => exact ha
  | some x => exact h x (Array.mem_of_getElem? hx)

theorem getD_push_of_lt {i : Nat} (h : i < xs.size) (x a : α) :
    (xs.push x).getD i a = xs.getD i a := by
  simp [Array.getD_eq_getD_getElem?, Array.getElem?_push, Nat.ne_of_lt h]

theorem getD_push_size (xs : Array α) (x a : α) : (xs.push x).getD xs.size a = x := by
  simp [Array.getD_eq_getD_getElem?]

theorem getD_modify_of_ne {i j : Nat} (h : i ≠ j) (f : α → α) (a : α) :
    (xs.modify i f).getD j a = xs.getD j a := by
  simp [Array.getD_eq_getD_getElem?, Array.getElem?_modify, h]

end Items

namespace Script

/-- The objects that are in sight. -/
abbrev Sight := ObjectId → Prop

variable {K K' : Sight}

/-- The value is no object, or one of these. -/
def Value.Among (K : Sight) : Value → Prop
  | .object i => K i
  | _ => True

theorem Value.Among.mono {v : Value} (h : v.Among K) (hK : K ≤ K') : v.Among K' := by
  cases v with
  | object i => exact hK i h
  | _ => trivial

def Binding.Among (K : Sight) (b : Binding) : Prop :=
  b.value.Among K

/-- All values that are stored in the heap are among these. -/
structure Heap.Among (K : Sight) (h : Heap) : Prop where
  frames : ∀ f ∈ h.frames, f.Each (Binding.Among K)
  objects : ∀ d ∈ h.objects, d.Each (Value.Among K)
  arrays : ∀ items ∈ h.arrays, ∀ v ∈ items, v.Among K

namespace Heap

variable {h : Heap}

theorem Among.mono (hh : h.Among K) (hK : K ≤ K') : h.Among K' where
  frames f hf := (hh.frames f hf).mono fun _ hb => Value.Among.mono hb hK
  objects d hd := (hh.objects d hd).mono fun _ hv => Value.Among.mono hv hK
  arrays items hitems v hv := (hh.arrays items hitems v hv).mono hK

theorem Among.frame (hh : h.Among K) (i : FrameId) : (h.frame i).Each (Binding.Among K) :=
  of_getD hh.frames Dict.each_nil i

theorem Among.object (hh : h.Among K) (i : ObjectId) : (h.object i).Each (Value.Among K) :=
  of_getD hh.objects Dict.each_nil i

theorem Among.array (hh : h.Among K) (i : ArrayId) : ∀ v ∈ h.array i, v.Among K :=
  of_getD hh.arrays (fun _ hv => absurd hv (Array.not_mem_empty _)) i

/-! ### Reading -/

theorem Among.getProperty (hh : h.Among K) {target v : Value} {key : String}
    (hv : h.getProperty target key = .ok v) : v.Among K := by
  cases target with
  | undefined | null => contradiction
  | bool | number => exact Except.ok.inj hv ▸ trivial
  | string s =>
    obtain rfl := Except.ok.inj hv
    unfold stringProperty
    split
    · trivial
    · split <;> trivial
  | array i =>
    obtain rfl := Except.ok.inj hv
    unfold arrayProperty
    split
    · trivial
    · split
      · exact of_getD (a := Value.undefined) (hh.array i) trivial _
      · cases arrayFunction? key <;> trivial
  | object i =>
    obtain rfl := Except.ok.inj hv
    cases hget : (h.object i).get? key with
    | none => trivial
    | some w => exact (hh.object i).of_get? hget
  | function i =>
    obtain rfl := Except.ok.inj hv
    unfold functionProperty
    dsimp only
    split
    · trivial
    · split <;> trivial
  | native n =>
    obtain rfl := Except.ok.inj hv
    split <;> trivial

theorem Among.lookup? (hh : h.Among K) {scope : Scope} {name : String} {v : Value}
    (hv : h.lookup? scope name = some v) : v.Among K := by
  induction scope with
  | nil => contradiction
  | cons i outer ih =>
    unfold Heap.lookup? Heap.binding? at hv
    cases hget : (h.frame i).get? name with
    | some b =>
      rw [hget] at hv
      obtain rfl := Option.some.inj hv
      exact (hh.frame i).of_get? hget
    | none =>
      rw [hget] at hv
      exact ih hv

theorem among_binary (h : Heap) (op : BinaryOp) (v w : Value) : (h.binary op v w).Among K := by
  unfold Heap.binary
  split
  · split <;> trivial
  all_goals trivial

end Heap

theorem among_apply (op : UnaryOp) (v : Value) : (op.apply v).Among K := by
  cases op <;> trivial

/-! ### What is hidden -/

namespace Heap

variable {H : ObjectId → Prop} {h h' h'' : Heap}

/-- The objects in sight: those that are there and are not among the hidden ones. -/
def Sees (H : ObjectId → Prop) (h : Heap) : Sight :=
  fun i => i < h.objects.size ∧ ¬H i

/-- These objects are there, but nothing that is stored refers to them. -/
structure Hides (H : ObjectId → Prop) (h : Heap) : Prop where
  among : h.Among (h.Sees H)
  exist : ∀ i, H i → i < h.objects.size

/-- From one heap to the other the hidden objects stayed as they are, and hidden. -/
structure Shields (H : ObjectId → Prop) (h h' : Heap) : Prop where
  hides : h'.Hides H
  grows : h.objects.size ≤ h'.objects.size
  kept : ∀ i, H i → h'.object i = h.object i

theorem Shields.refl (hh : h.Hides H) : h.Shields H h :=
  ⟨hh, Nat.le_refl _, fun _ _ => rfl⟩

theorem Shields.trans (h₁ : h.Shields H h') (h₂ : h'.Shields H h'') : h.Shields H h'' :=
  ⟨h₂.hides, Nat.le_trans h₁.grows h₂.grows, fun i hi => (h₂.kept i hi).trans (h₁.kept i hi)⟩

theorem Shields.sees (hs : h.Shields H h') : h.Sees H ≤ h'.Sees H :=
  fun _ hi => ⟨Nat.lt_of_lt_of_le hi.1 hs.grows, hi.2⟩

/-- Nothing but the objects counts for what there is to see. -/
theorem Hides.shields_of_objects_eq (hh : h.Hides H) (hobjects : h'.objects = h.objects)
    (hframes : ∀ f ∈ h'.frames, f.Each (Binding.Among (h.Sees H)))
    (harrays : ∀ items ∈ h'.arrays, ∀ v ∈ items, v.Among (h.Sees H)) : h.Shields H h' := by
  have hsees : h'.Sees H = h.Sees H := by
    unfold Sees
    rw [hobjects]
  refine ⟨⟨⟨?_, ?_, ?_⟩, ?_⟩, ?_, ?_⟩
  · rwa [hsees]
  · rw [hsees, hobjects]
    exact hh.among.objects
  · rwa [hsees]
  · rw [hobjects]
    exact hh.exist
  · exact Nat.le_of_eq (congrArg Array.size hobjects.symm)
  · intro i hi
    rw [object, hobjects]
    rfl

/-! ### Growth -/

theorem Hides.newFrame (hh : h.Hides H) {f : Frame} (hf : f.Each (Binding.Among (h.Sees H))) :
    h.Shields H (h.newFrame f).2 :=
  hh.shields_of_objects_eq rfl (forall_mem_push hh.among.frames hf) hh.among.arrays

theorem Hides.newArray (hh : h.Hides H) {items : Array Value}
    (hitems : ∀ v ∈ items, v.Among (h.Sees H)) : h.Shields H (h.newArray items).2 :=
  hh.shields_of_objects_eq rfl hh.among.frames (forall_mem_push hh.among.arrays hitems)

theorem Hides.newClosure (hh : h.Hides H) (c : Closure) : h.Shields H (h.newClosure c).2 :=
  hh.shields_of_objects_eq rfl hh.among.frames hh.among.arrays

theorem Hides.newObject (hh : h.Hides H) {d : Dict Value} (hd : d.Each (Value.Among (h.Sees H))) :
    h.Shields H (h.newObject d).2 ∧ (h.newObject d).2.Sees H (h.newObject d).1 := by
  have hsize : (h.newObject d).2.objects.size = h.objects.size + 1 := Array.size_push _
  have hsees : h.Sees H ≤ (h.newObject d).2.Sees H :=
    fun i hi => ⟨by rw [hsize]; exact Nat.lt_succ_of_lt hi.1, hi.2⟩
  have hamong := hh.among.mono hsees
  refine ⟨⟨⟨⟨hamong.frames, ?_, hamong.arrays⟩, ?_⟩, ?_, ?_⟩, ?_, ?_⟩
  · exact forall_mem_push hamong.objects (hd.mono fun _ hv => Value.Among.mono hv hsees)
  · intro i hi
    rw [hsize]
    exact Nat.lt_succ_of_lt (hh.exist i hi)
  · rw [hsize]
    exact Nat.le_succ _
  · exact fun i hi => getD_push_of_lt (hh.exist i hi) d []
  · rw [hsize]
    exact Nat.lt_succ_self _
  · exact fun hi => Nat.lt_irrefl _ (hh.exist _ hi)

mutual

theorem Hides.ofJson {h : Heap} (hh : h.Hides H) (j : Json) :
    h.Shields H (h.ofJson j).2 ∧ (h.ofJson j).1.Among ((h.ofJson j).2.Sees H) := by
  cases j with
  | array items =>
    obtain ⟨hs, hvalues⟩ := hh.ofJsonItems items
    rw [Heap.ofJson]
    refine ⟨hs.trans (hs.hides.newArray fun v hv => hvalues v (List.mem_toArray.mp hv)), trivial⟩
  | object fields =>
    obtain ⟨hs, hpairs⟩ := hh.ofJsonFields fields
    rw [Heap.ofJson]
    obtain ⟨hnew, hsees⟩ := hs.hides.newObject hpairs.ofPairs
    exact ⟨hs.trans hnew, hsees⟩
  | _ =>
    rw [Heap.ofJson]
    exact ⟨.refl hh, trivial⟩

theorem Hides.ofJsonItems {h : Heap} (hh : h.Hides H) (items : List Json) :
    h.Shields H (h.ofJsonItems items).2 ∧
      ∀ v ∈ (h.ofJsonItems items).1, v.Among ((h.ofJsonItems items).2.Sees H) := by
  cases items with
  | nil =>
    rw [Heap.ofJsonItems]
    exact ⟨.refl hh, nofun⟩
  | cons j rest =>
    obtain ⟨hs, hvalue⟩ := hh.ofJson j
    obtain ⟨hrest, hvalues⟩ := hs.hides.ofJsonItems rest
    rw [Heap.ofJsonItems]
    exact ⟨hs.trans hrest, List.forall_mem_cons.mpr ⟨hvalue.mono hrest.sees, hvalues⟩⟩

theorem Hides.ofJsonFields {h : Heap} (hh : h.Hides H) (fields : List (String × Json)) :
    h.Shields H (h.ofJsonFields fields).2 ∧
      Dict.Each (Value.Among ((h.ofJsonFields fields).2.Sees H)) (h.ofJsonFields fields).1 := by
  cases fields with
  | nil =>
    rw [Heap.ofJsonFields]
    exact ⟨.refl hh, Dict.each_nil⟩
  | cons field rest =>
    obtain ⟨key, j⟩ := field
    obtain ⟨hs, hvalue⟩ := hh.ofJson j
    obtain ⟨hrest, hvalues⟩ := hs.hides.ofJsonFields rest
    rw [Heap.ofJsonFields]
    exact ⟨hs.trans hrest, .cons (hvalue.mono hrest.sees) hvalues⟩

end

/-! ### Change -/

theorem Hides.declare (hh : h.Hides H) (i : FrameId) (name : String) {v : Value}
    (hv : v.Among (h.Sees H)) (mutable : Bool) : h.Shields H (h.declare i name v mutable) := by
  have hinsert (f : Frame) (hf : f.Each (Binding.Among (h.Sees H))) :
      Dict.Each (Binding.Among (h.Sees H)) (f.insert name ⟨v, mutable⟩) := hf.insert name hv
  exact hh.shields_of_objects_eq rfl (forall_mem_modify hh.among.frames hinsert i) hh.among.arrays

theorem Hides.assign (hh : h.Hides H) (scope : Scope) (name : String) {v : Value}
    (hv : v.Among (h.Sees H)) : h.Shields H (h.assign scope name v) := by
  induction scope with
  | nil => exact .refl hh
  | cons i outer ih =>
    unfold Heap.assign
    split
    · exact hh.declare i name hv true
    · exact ih

theorem Hides.modifyArray (hh : h.Hides H) (i : ArrayId) {f : Array Value → Array Value}
    (hf : ∀ items : Array Value, (∀ v ∈ items, v.Among (h.Sees H)) →
      ∀ v ∈ f items, v.Among (h.Sees H)) : h.Shields H (h.modifyArray i f) :=
  hh.shields_of_objects_eq rfl hh.among.frames (forall_mem_modify hh.among.arrays hf i)

theorem Hides.setItem (hh : h.Hides H) (i : ArrayId) (index : Nat) {v : Value}
    (hv : v.Among (h.Sees H)) : h.Shields H (h.setItem i index v) := by
  refine hh.modifyArray i fun items hitems => ?_
  split
  · exact forall_mem_set hitems hv index
  · refine forall_mem_push (fun w hw => ?_) hv
    obtain hw | hw := Array.mem_append.mp hw
    · exact hitems w hw
    · obtain rfl := (Array.mem_replicate.mp hw).2
      trivial

theorem Hides.setProperty (hh : h.Hides H) {i : ObjectId} (hi : h.Sees H i) (key : String)
    {v : Value} (hv : v.Among (h.Sees H)) : h.Shields H (h.setProperty i key v) := by
  have hsize : (h.setProperty i key v).objects.size = h.objects.size := Array.size_modify ..
  have hsees : (h.setProperty i key v).Sees H = h.Sees H := by
    unfold Sees
    rw [hsize]
  refine ⟨⟨⟨?_, ?_, ?_⟩, ?_⟩, ?_, ?_⟩
  · rw [hsees]
    exact hh.among.frames
  · rw [hsees]
    exact forall_mem_modify hh.among.objects (fun d hd => hd.insert key hv) i
  · rw [hsees]
    exact hh.among.arrays
  · rw [hsize]
    exact hh.exist
  · exact Nat.le_of_eq hsize.symm
  · intro j hj
    refine getD_modify_of_ne (fun hij => hi.2 ?_) _ _
    rwa [hij]

theorem Hides.putProperty (hh : h.Hides H) {target v : Value} (htarget : target.Among (h.Sees H))
    (key : String) (hv : v.Among (h.Sees H)) : h.Shields H (h.putProperty target key v) := by
  cases target with
  | object i => exact hh.setProperty htarget key hv
  | array i =>
    unfold Heap.putProperty
    dsimp only
    split
    · exact hh.setItem i _ hv
    · exact .refl hh
  | _ => exact .refl hh

end Heap

end Script

end ModuleLoader
