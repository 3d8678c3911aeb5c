import Mathlib.Data.List.Forall2
import ModuleLoader.Proofs.Globals
import ModuleLoader.Proofs.Nodes

/-! Heaps that are alike up to a renaming of identities. Two heaps of one realm that were not equal
at first grow alike from there on, if the same is done to both: what is made in one has its twin in
the other, at an index that is so much higher or lower. What a heap held before that belongs to
others, and has no twin. -/
namespace ModuleLoader

section Relations

variable {α β γ δ : Type} {R : α → β → Prop}

theorem map_eq_map_of_forall₂ {f : α → γ} {g : β → γ} {xs : List α} {ys : List β}
    (h : List.Forall₂ R xs ys) (hfg : ∀ x y, R x y → f x = g y) : xs.map f = ys.map g := by
  have hmap : List.Forall₂ Eq (xs.map f) (ys.map g) := List.rel_map (fun x y hxy => hfg x y hxy) h
  rwa [List.forall₂_eq_eq_eq] at hmap

theorem isEmpty_eq_of_forall₂ {xs : List α} {ys : List β} (h : List.Forall₂ R xs ys) :
    xs.isEmpty = ys.isEmpty := by
  cases h <;> rfl

theorem contains_eq_of_forall₂ [BEq α] [LawfulBEq α] [BEq β] [LawfulBEq β]
    (hR : ∀ {a b c d}, R a b → R c d → (a = c ↔ b = d)) {xs : List α} {ys : List β}
    (h : List.Forall₂ R xs ys) {a : α} {b : β} (hab : R a b) : xs.contains a = ys.contains b := by
  induction h with
  | nil => rfl
  | @cons c d xs ys hcd _ ih =>
    have hhead : (a == c) = (b == d) := by
      rw [Bool.eq_iff_iff, beq_iff_eq, beq_iff_eq, hR hab hcd]
    rw [List.contains_cons, List.contains_cons, hhead, ih]

theorem rel_getElem?_of_forall₂ {xs : List α} {ys : List β} (h : List.Forall₂ R xs ys) (i : Nat) :
    Option.Rel R xs[i]? ys[i]? := by
  induction h generalizing i with
  | nil => exact .none
  | cons hxy _ ih =>
    cases i with
    | zero => exact .some hxy
    | succ i => exact ih i

theorem forall₂_set {xs : List α} {ys : List β} (h : List.Forall₂ R xs ys) (i : Nat) {a : α} {b : β}
    (hab : R a b) : List.Forall₂ R (xs.set i a) (ys.set i b) := by
  induction h generalizing i with
  | nil => exact .nil
  | cons hxy hrest ih =>
    cases i with
    | zero => exact .cons hab hrest
    | succ i => exact .cons hxy (ih i)

theorem rel_getD {o : Option α} {o' : Option β} (h : Option.Rel R o o') {a : α} {b : β}
    (hab : R a b) : R (o.getD a) (o'.getD b) := by
  cases h with
  | some h => exact h
  | none => exact hab

theorem rel_map {R' : γ → δ → Prop} {o : Option α} {o' : Option β} (h : Option.Rel R o o')
    {f : α → γ} {g : β → δ} (hfg : ∀ a b, R a b → R' (f a) (g b)) :
    Option.Rel R' (o.map f) (o'.map g) := by
  cases h with
  | some h => exact .some (hfg _ _ h)
  | none => exact .none

end Relations

namespace Script

/-! ### Windows -/

/-- How indices of two heaps correspond, one to one: those below `fixed` to themselves, and those
from `source` on in one heap to those from `target` on in the other. -/
structure Window where
  fixed : Nat
  source : Nat
  target : Nat
  fixed_le_source : fixed ≤ source
  fixed_le_target : fixed ≤ target

namespace Window

inductive Twin (w : Window) : Nat → Nat → Prop where
  | fixed {i : Nat} (h : i < w.fixed) : Twin w i i
  | moved (n : Nat) : Twin w (w.source + n) (w.target + n)

/-- The arrays have grown alike, and what they have at corresponding indices is so related. -/
structure Twins {α : Type} (w : Window) (R : α → α → Prop) (xs xs' : Array α) : Prop where
  size : ∃ n, xs.size = w.source + n ∧ xs'.size = w.target + n
  item : ∀ {i i'}, w.Twin i i' → Option.Rel R xs[i]? xs'[i']?

variable {w : Window} {i i' j j' : Nat}

theorem Twin.eq_iff (hi : w.Twin i i') (hj : w.Twin j j') : i = j ↔ i' = j' := by
  have := w.fixed_le_source
  have := w.fixed_le_target
  cases hi <;> cases hj <;> omega

variable {α : Type} {R : α → α → Prop} {xs xs' : Array α}

theorem Twins.next (h : w.Twins R xs xs') : w.Twin xs.size xs'.size := by
  obtain ⟨n, hn, hn'⟩ := h.size
  rw [hn, hn']
  exact .moved n

theorem Twins.getD (h : w.Twins R xs xs') (hi : w.Twin i i') {d d' : α} (hd : R d d') :
    R (xs.getD i d) (xs'.getD i' d') := by
  rw [Array.getD_eq_getD_getElem?, Array.getD_eq_getD_getElem?]
  exact rel_getD (h.item hi) hd

theorem twins_of_fixed (hs : xs.size = w.source) (ht : xs'.size = w.target)
    (h : ∀ i < w.fixed, Option.Rel R xs[i]? xs'[i]?) : w.Twins R xs xs' where
  size := ⟨0, hs, ht⟩
  item hi := by
    cases hi with
    | fixed hi => exact h _ hi
    | moved n =>
      rw [← hs, ← ht, Array.getElem?_eq_none (Nat.le_add_right ..),
        Array.getElem?_eq_none (Nat.le_add_right ..)]
      exact .none

theorem Twins.push (h : w.Twins R xs xs') {a a' : α} (ha : R a a') :
    w.Twins R (xs.push a) (xs'.push a') where
  size := by
    obtain ⟨n, hn, hn'⟩ := h.size
    rw [Array.size_push, Array.size_push, hn, hn', Nat.add_assoc, Nat.add_assoc]
    exact ⟨n + 1, rfl, rfl⟩
  item {i i'} hi := by
    rw [Array.getElem?_push, Array.getElem?_push]
    by_cases hlast : i = xs.size
    · rw [if_pos hlast, if_pos ((hi.eq_iff h.next).mp hlast)]
      exact .some ha
    · rw [if_neg hlast, if_neg (mt (hi.eq_iff h.next).mpr hlast)]
      exact h.item hi

theorem Twins.modify (h : w.Twins R xs xs') (hi : w.Twin i i') {f f' : α → α}
    (hf : ∀ a a', R a a' → R (f a) (f' a')) : w.Twins R (xs.modify i f) (xs'.modify i' f') where
  size := by
    rw [Array.size_modify, Array.size_modify]
    exact h.size
  item {j j'} hj := by
    rw [Array.getElem?_modify, Array.getElem?_modify]
    by_cases hij : i = j
    · rw [if_pos hij, if_pos ((hi.eq_iff hj).mp hij)]
      exact rel_map (h.item hj) hf
    · rw [if_neg hij, if_neg (mt (hi.eq_iff hj).mpr hij)]
      exact h.item hj

end Window

/-! ### Values -/

structure Relocation where
  frames : Window
  objects : Window
  arrays : Window
  functions : Window

/-- The value is the other one, up to the identities of containers and functions. Of the functions
of the host only those of arrays have twins; the others do something about the world outside. -/
inductive Value.Twin (k : Relocation) : Value → Value → Prop where
  | undefined : Twin k .undefined .undefined
  | null : Twin k .null .null
  | bool (b : Bool) : Twin k (.bool b) (.bool b)
  | number (x : Float) : Twin k (.number x) (.number x)
  | string (s : String) : Twin k (.string s) (.string s)
  | array {i i' : ArrayId} (h : k.arrays.Twin i i') : Twin k (.array i) (.array i')
  | object {i i' : ObjectId} (h : k.objects.Twin i i') : Twin k (.object i) (.object i')
  | function {i i' : FunctionId} (h : k.functions.Twin i i') :
      Twin k (.function i) (.function i')
  | native {key : String} {n : Native} (h : arrayFunction? key = some n) :
      Twin k (.native n) (.native n)

/-- The names under which a module finds what it shares with other modules. -/
def sharedNames : List String :=
  ["global", "globalThis", "console", "print", "JSON", "Object", "require"]

/-- The name that the node consists of, if it does. -/
def Node.name? : Node → Option String
  | .expr (.identifier name _) => some name
  | _ => none

/-- The node is not a name under which a module finds what it shares with others. -/
def Node.Discreet (x : Node) : Prop :=
  ∀ name ∈ x.name?, name ∉ sharedNames

instance : DecidablePred Node.Discreet :=
  fun x => inferInstanceAs (Decidable (∀ name ∈ x.name?, name ∉ sharedNames))

/-- The node and all its parts are discreet. -/
abbrev Node.IsDiscreet (x : Node) : Prop :=
  x.Everywhere Node.Discreet

namespace Node.IsDiscreet

theorem part {x y : Node} (h : x.IsDiscreet) (hy : y ∈ x.parts) : y.IsDiscreet :=
  h.within (.single hy)

theorem expression {literal : FunctionDef} (h : (Node.expr (.function literal)).IsDiscreet) :
    ∀ s ∈ literal.body, (Node.stmt s).IsDiscreet := by
  obtain ⟨name, params, body, span⟩ := literal
  exact fun s hs => h.part (List.mem_map_of_mem hs)

theorem declaration {literal : FunctionDef} (h : (Node.stmt (.function literal)).IsDiscreet) :
    ∀ s ∈ literal.body, (Node.stmt s).IsDiscreet := by
  obtain ⟨name, params, body, span⟩ := literal
  exact fun s hs => h.part (List.mem_map_of_mem hs)

theorem identifier {name : String} {span : Span}
    (h : (Node.expr (.identifier name span)).IsDiscreet) : name ∉ sharedNames :=
  h _ .refl name rfl

end Node.IsDiscreet

structure Binding.Twin (k : Relocation) (b b' : Binding) : Prop where
  value : b.value.Twin k b'.value
  mutable : b.mutable = b'.mutable

/-- The variables of the frames correspond, but for those that have the name of something shared. -/
def Frame.Twin (k : Relocation) (f f' : Frame) : Prop :=
  ∀ name, name ∉ sharedNames → Option.Rel (Binding.Twin k) (f.get? name) (f'.get? name)

def Scope.Twin (k : Relocation) (scope scope' : Scope) : Prop :=
  List.Forall₂ k.frames.Twin scope scope'

/-- The function of the same literal, which speaks of nothing shared, in a scope that
corresponds. -/
structure Closure.Twin (k : Relocation) (c c' : Closure) : Prop where
  literal : c.literal = c'.literal
  discreet : ∀ s ∈ c.literal.body, (Node.stmt s).IsDiscreet
  scope : Scope.Twin k c.scope c'.scope

/-- The properties have the same keys in the same order. -/
def Properties.Twin (k : Relocation) (d d' : Dict Value) : Prop :=
  List.Forall₂ (fun p p' => p.1 = p'.1 ∧ p.2.Twin k p'.2) d d'

def Items.Twin (k : Relocation) (items items' : Array Value) : Prop :=
  List.Forall₂ (Value.Twin k) items.toList items'.toList

/-- What the heaps have at corresponding indices corresponds. -/
structure Heap.Twin (k : Relocation) (h h' : Heap) : Prop where
  frames : k.frames.Twins (Frame.Twin k) h.frames h'.frames
  objects : k.objects.Twins (Properties.Twin k) h.objects h'.objects
  arrays : k.arrays.Twins (Items.Twin k) h.arrays h'.arrays
  closures : k.functions.Twins (Closure.Twin k) h.closures h'.closures

variable {k : Relocation}

namespace Value.Twin

variable {v v' : Value}

theorem isAbsent_eq (h : v.Twin k v') : v.isAbsent = v'.isAbsent := by
  cases h <;> rfl

theorem isCallable_eq (h : v.Twin k v') : v.isCallable = v'.isCallable := by
  cases h <;> rfl

theorem truthy_eq (h : v.Twin k v') : v.truthy = v'.truthy := by
  cases h <;> rfl

theorem typeName_eq (h : v.Twin k v') : v.typeName = v'.typeName := by
  cases h <;> rfl

theorem toNumber_eq (h : v.Twin k v') : v.toNumber = v'.toNumber := by
  cases h <;> rfl

theorem joinsText_eq (h : v.Twin k v') : v.joinsText = v'.joinsText := by
  cases h <;> rfl

end Value.Twin

/-! ### Dictionaries and frames -/

namespace Properties.Twin

variable {d d' : Dict Value}

theorem get? (h : Properties.Twin k d d') (key : String) :
    Option.Rel (Value.Twin k) (d.get? key) (d'.get? key) := by
  induction h with
  | nil => exact .none
  | cons hp _ ih =>
    rw [Dict.get?, Dict.get?, hp.1]
    split
    · exact .some hp.2
    · exact ih

theorem insert (h : Properties.Twin k d d') (key : String) {v v' : Value} (hv : v.Twin k v') :
    Properties.Twin k (d.insert key v) (d'.insert key v') := by
  induction h with
  | nil => exact .cons ⟨rfl, hv⟩ .nil
  | cons hp hrest ih =>
    rw [Dict.insert, Dict.insert, hp.1]
    split
    · exact .cons ⟨rfl, hv⟩ hrest
    · exact .cons ⟨rfl, hp.2⟩ ih

theorem ofPairs (h : Properties.Twin k d d') :
    Properties.Twin k (Dict.ofPairs d) (Dict.ofPairs d') := by
  suffices hfold : ∀ {a a' : Dict Value}, Properties.Twin k a a' → Properties.Twin k
      (d.foldl (fun d pair => d.insert pair.1 pair.2) a)
      (d'.foldl (fun d pair => d.insert pair.1 pair.2) a') from hfold .nil
  induction h with
  | nil => exact fun ha => ha
  | cons hp _ ih =>
    intro a a' ha
    rw [List.foldl_cons, List.foldl_cons, hp.1]
    exact ih (ha.insert _ hp.2)

end Properties.Twin

namespace Items.Twin

variable {items items' : Array Value}

theorem size_eq (h : Items.Twin k items items') : items.size = items'.size :=
  h.length_eq

theorem getD (h : Items.Twin k items items') (index : Nat) :
    (items.getD index .undefined).Twin k (items'.getD index .undefined) := by
  rw [Array.getD_eq_getD_getElem?, Array.getD_eq_getD_getElem?, ← Array.getElem?_toList,
    ← Array.getElem?_toList]
  exact rel_getD (rel_getElem?_of_forall₂ h index) .undefined

theorem append (h : Items.Twin k items items') {more more' : Array Value}
    (hmore : Items.Twin k more more') : Items.Twin k (items ++ more) (items' ++ more') := by
  unfold Items.Twin
  rw [Array.toList_append, Array.toList_append]
  exact List.rel_append h hmore

theorem push (h : Items.Twin k items items') {v v' : Value} (hv : v.Twin k v') :
    Items.Twin k (items.push v) (items'.push v') := by
  unfold Items.Twin
  rw [Array.toList_push, Array.toList_push]
  exact List.rel_append h (.cons hv .nil)

theorem set (h : Items.Twin k items items') (index : Nat) {v v' : Value} (hv : v.Twin k v') :
    Items.Twin k (items.set! index v) (items'.set! index v') := by
  unfold Items.Twin
  rw [Array.set!_eq_setIfInBounds, Array.set!_eq_setIfInBounds, Array.toList_setIfInBounds,
    Array.toList_setIfInBounds]
  exact forall₂_set h index hv

theorem blank (n : Nat) : Items.Twin k (.replicate n .undefined) (.replicate n .undefined) := by
  unfold Items.Twin
  rw [Array.toList_replicate, List.forall₂_same]
  exact fun v hv => List.eq_of_mem_replicate hv ▸ .undefined

end Items.Twin

theorem Frame.Twin.empty : Frame.Twin k [] [] :=
  fun _ _ => .none

theorem Frame.Twin.insert {f f' : Frame} (h : Frame.Twin k f f') (name : String)
    {v v' : Value} (hv : v.Twin k v') (mutable : Bool) :
    Frame.Twin k (f.insert name ⟨v, mutable⟩) (f'.insert name ⟨v', mutable⟩) := by
  intro other hother
  rw [Dict.get?_insert, Dict.get?_insert]
  split
  · exact .some ⟨hv, rfl⟩
  · exact h other hother

/-! ### Heaps -/

namespace Heap.Twin

variable {h h' : Heap}

theorem frame (hh : h.Twin k h') {i i' : FrameId} (hi : k.frames.Twin i i') :
    Frame.Twin k (h.frame i) (h'.frame i') :=
  hh.frames.getD hi fun _ _ => .none

theorem object (hh : h.Twin k h') {i i' : ObjectId} (hi : k.objects.Twin i i') :
    Properties.Twin k (h.object i) (h'.object i') :=
  hh.objects.getD hi .nil

theorem array (hh : h.Twin k h') {i i' : ArrayId} (hi : k.arrays.Twin i i') :
    Items.Twin k (h.array i) (h'.array i') :=
  hh.arrays.getD hi .nil

theorem closure (hh : h.Twin k h') {i i' : FunctionId} (hi : k.functions.Twin i i') :
    Closure.Twin k (h.closure i) (h'.closure i') :=
  hh.closures.getD hi ⟨rfl, nofun, .nil⟩

theorem newFrame (hh : h.Twin k h') {f f' : Frame} (hf : Frame.Twin k f f') :
    (h.newFrame f).2.Twin k (h'.newFrame f').2 :=
  { hh with frames := hh.frames.push hf }

theorem newObject (hh : h.Twin k h') {d d' : Dict Value} (hd : Properties.Twin k d d') :
    (h.newObject d).2.Twin k (h'.newObject d').2 :=
  { hh with objects := hh.objects.push hd }

theorem newArray (hh : h.Twin k h') {a a' : Array Value} (ha : Items.Twin k a a') :
    (h.newArray a).2.Twin k (h'.newArray a').2 :=
  { hh with arrays := hh.arrays.push ha }

theorem newClosure (hh : h.Twin k h') {c c' : Closure} (hc : Closure.Twin k c c') :
    (h.newClosure c).2.Twin k (h'.newClosure c').2 :=
  { hh with closures := hh.closures.push hc }

theorem declare (hh : h.Twin k h') {i i' : FrameId} (hi : k.frames.Twin i i') (name : String)
    {v v' : Value} (hv : v.Twin k v') (mutable : Bool) :
    (h.declare i name v mutable).Twin k (h'.declare i' name v' mutable) :=
  { hh with frames := hh.frames.modify hi fun _ _ hf => hf.insert name hv mutable }

theorem setProperty (hh : h.Twin k h') {i i' : ObjectId} (hi : k.objects.Twin i i')
    (key : String) {v v' : Value} (hv : v.Twin k v') :
    (h.setProperty i key v).Twin k (h'.setProperty i' key v') :=
  { hh with objects := hh.objects.modify hi fun _ _ hd => hd.insert key hv }

theorem modifyArray (hh : h.Twin k h') {i i' : ArrayId} (hi : k.arrays.Twin i i')
    {f f' : Array Value → Array Value}
    (hf : ∀ a a', Items.Twin k a a' → Items.Twin k (f a) (f' a')) :
    (h.modifyArray i f).Twin k (h'.modifyArray i' f') :=
  { hh with arrays := hh.arrays.modify hi hf }

end Heap.Twin

/-! ### Heaps of a realm -/

/-- Two heaps of realms correspond from now on: the globals do, and nothing else that is there. -/
def Relocation.from {h h' : Heap} (hh : h.InRealm) (hh' : h'.InRealm) : Relocation where
  frames := ⟨1, h.frames.size, h'.frames.size, hh.size_pos, hh'.size_pos⟩
  objects := ⟨0, h.objects.size, h'.objects.size, Nat.zero_le _, Nat.zero_le _⟩
  arrays := ⟨0, h.arrays.size, h'.arrays.size, Nat.zero_le _, Nat.zero_le _⟩
  functions := ⟨0, h.closures.size, h'.closures.size, Nat.zero_le _, Nat.zero_le _⟩

/-- Those globals that are containers or functions have the names of what is shared. -/
theorem twin_globals (k : Relocation) :
    Frame.Twin k (realm.frame globalFrame) (realm.frame globalFrame) := by
  have hprimitive : ∀ p ∈ realm.frame globalFrame, p.1 ∈ sharedNames ∨
      p.2.value = .undefined ∨ ∃ x, p.2.value = .number x := by
    simp [realm, Heap.frame, globalFrame, sharedNames]
  intro name hname
  cases hb : (realm.frame globalFrame).get? name with
  | none => exact .none
  | some b =>
    refine .some ⟨?_, rfl⟩
    obtain hshared | hundefined | ⟨x, hx⟩ := hprimitive _ (Dict.mem_of_get? hb)
    · exact absurd hshared hname
    · exact hundefined ▸ .undefined
    · exact hx ▸ .number x

theorem Heap.InRealm.twin {h h' : Heap} (hh : h.InRealm) (hh' : h'.InRealm) :
    h.Twin (Relocation.from hh hh') h' where
  frames := Window.twins_of_fixed rfl rfl fun i hi => by
    have hglobals : realm.frames[globalFrame]? = some (realm.frame globalFrame) := rfl
    obtain rfl : i = globalFrame := Nat.lt_one_iff.mp hi
    rw [hh, hh', hglobals]
    exact .some (twin_globals _)
  objects := Window.twins_of_fixed rfl rfl nofun
  arrays := Window.twins_of_fixed rfl rfl nofun
  closures := Window.twins_of_fixed rfl rfl nofun

end Script

end ModuleLoader
