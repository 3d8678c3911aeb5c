import Mathlib.Logic.Relation
import Mathlib.Tactic.ByContra
import ModuleLoader.Script.Conversion

/-! Containers one inside the other, and which values have a JSON form. The conversion keeps the
list of the containers that it is in; what it meets is told here without that list, by the paths
that lead into a value. -/
namespace ModuleLoader.Script

def Value.container? : Value → Option Container
  | .array id => some (.array id)
  | .object id => some (.object id)
  | _ => none

namespace Heap

/-- The values directly in a container: the items of an array, the properties of an object. -/
def members (h : Heap) : Container → List Value
  | .array id => (h.array id).toList
  | .object id => (h.object id).map Prod.snd

/-- The first container has the second directly in it. -/
def Holds (h : Heap) (c d : Container) : Prop :=
  ∃ v ∈ h.members c, v.container? = some d

/-- The container is the value itself, or is somewhere in it. -/
def Reaches (h : Heap) (v : Value) (c : Container) : Prop :=
  ∃ d, v.container? = some d ∧ Relation.ReflTransGen h.Holds d c

/-- A path into a value: the value is the first of the containers, and each of the others is
directly in the one before it. -/
inductive Nest (h : Heap) : Value → List Container → Prop where
  | stop {v : Value} {c : Container} (hv : v.container? = some c) : Nest h v [c]
  | enter {v w : Value} {c : Container} {path : List Container} (hv : v.container? = some c)
      (hw : w ∈ h.members c) (hpath : Nest h w path) : Nest h v (c :: path)

variable {h : Heap} {v : Value} {c d : Container} {path : List Container}

theorem Reaches.self (hv : v.container? = some c) : h.Reaches v c :=
  ⟨c, hv, .refl⟩

theorem Reaches.enter {w : Value} (hv : v.container? = some c) (hw : w ∈ h.members c)
    (hd : h.Reaches w d) : h.Reaches v d ∧ Relation.TransGen h.Holds c d := by
  obtain ⟨e, he, hed⟩ := hd
  have hce : h.Holds c e := ⟨w, hw, he⟩
  exact ⟨⟨c, hv, .head hce hed⟩, .head' hce hed⟩

/-! ### Paths and cycles -/

theorem Nest.container?_isSome (hpath : h.Nest v path) : v.container?.isSome := by
  cases hpath with
  | stop hv => simp [hv]
  | enter hv => simp [hv]

theorem Nest.reaches (hpath : h.Nest v path) : ∀ c ∈ path, h.Reaches v c := by
  induction hpath with
  | stop hv => simpa using Reaches.self hv
  | enter hv hw _ ih =>
    intro d hd
    obtain rfl | hd := List.mem_cons.mp hd
    · exact .self hv
    · exact ((ih d hd).enter hv hw).1

theorem Nest.pairwise (hpath : h.Nest v path) : path.Pairwise (Relation.TransGen h.Holds) := by
  induction hpath with
  | stop hv => exact List.pairwise_singleton _ _
  | enter hv hw hpath ih =>
    exact List.pairwise_cons.mpr ⟨fun d hd => ((hpath.reaches d hd).enter hv hw).2, ih⟩

/-- A path that comes to a container twice comes to one that contains itself. -/
theorem Nest.exists_cycle (hpath : h.Nest v path) (hn : ¬ path.Nodup) :
    ∃ c ∈ path, Relation.TransGen h.Holds c c := by
  by_contra hno
  refine hn (hpath.pairwise.imp_of_mem fun {c d} hc _ hcd heq => ?_)
  subst heq
  exact hno ⟨c, hc, hcd⟩

theorem exists_nest_of_transGen (hcd : Relation.TransGen h.Holds c d) :
    ∀ {v : Value}, v.container? = some c → ∃ path, h.Nest v (c :: path) ∧ d ∈ path := by
  induction hcd using Relation.TransGen.head_induction_on with
  | single hcd =>
    intro v hv
    obtain ⟨w, hw, hd⟩ := hcd
    exact ⟨[d], .enter hv hw (.stop hd), List.mem_singleton_self d⟩
  | head hce _ ih =>
    intro v hv
    obtain ⟨w, hw, he⟩ := hce
    obtain ⟨path, hpath, hd⟩ := ih he
    exact ⟨_, .enter hv hw hpath, List.mem_cons_of_mem _ hd⟩

/-- Into a value with a container that contains itself, some path comes to a container twice. -/
theorem exists_nest_of_cycle (hd : h.Reaches v d) (hdd : Relation.TransGen h.Holds d d) :
    ∃ path, h.Nest v path ∧ ¬ path.Nodup := by
  obtain ⟨c, hv, hcd⟩ := hd
  induction hcd using Relation.ReflTransGen.head_induction_on generalizing v with
  | refl =>
    obtain ⟨path, hpath, hd⟩ := exists_nest_of_transGen hdd hv
    exact ⟨_, hpath, fun hn => (List.nodup_cons.mp hn).1 hd⟩
  | head hce _ ih =>
    obtain ⟨w, hw, he⟩ := hce
    obtain ⟨path, hpath, hn⟩ := ih he
    exact ⟨_, .enter hv hw hpath, fun hn' => hn (List.nodup_cons.mp hn').2⟩

theorem acyclic_iff_nodup (h : Heap) (v : Value) :
    (∀ c, h.Reaches v c → ¬ Relation.TransGen h.Holds c c) ↔
      ∀ path, h.Nest v path → path.Nodup := by
  constructor
  · intro hac path hpath
    by_contra hn
    obtain ⟨c, hc, hcc⟩ := hpath.exists_cycle hn
    exact hac c (hpath.reaches c hc) hcc
  · intro hnodup c hc hcc
    obtain ⟨path, hpath, hn⟩ := exists_nest_of_cycle hc hcc
    exact hn (hnodup path hpath)

/-! ### What the conversion meets -/

end Heap

/-- The fault that something ended in. -/
def faultOf? {ε α : Type} : Except ε α → Option ε
  | .ok _ => none
  | .error e => some e

section

variable {ε α β : Type}

theorem faultOf?_eq_none {x : Except ε α} : faultOf? x = none ↔ ∃ a, x = .ok a := by
  cases x <;> simp [faultOf?]

theorem faultOf?_eq_some {x : Except ε α} {e : ε} : faultOf? x = some e ↔ x = .error e := by
  cases x <;> simp [faultOf?]

@[simp] theorem faultOf?_map (f : α → β) (x : Except ε α) : faultOf? (f <$> x) = faultOf? x := by
  cases x <;> rfl

theorem faultOf?_mapM (f : α → Except ε β) (l : List α) :
    faultOf? (l.mapM f) = l.findSome? fun a => faultOf? (f a) := by
  induction l with
  | nil => rfl
  | cons a l ih =>
    rw [List.mapM_cons, List.findSome?_cons, ← ih]
    cases f a with
    | error e => rfl
    | ok b => exact faultOf?_map (b :: ·) (l.mapM f)

end

namespace Heap

variable {h : Heap} {v : Value} {c : Container} {left : Nat} {inside : List Container}

theorem fault_of_plain (hv : v.container? = none) : faultOf? (h.toJsonIn left inside v) = none := by
  cases v with
  | array id => contradiction
  | object id => contradiction
  | _ => cases left <;> rfl

/-- The conversion of a container meets one that it is in, or its limit, or what is met first in the
members. -/
theorem fault_cases (h : Heap) (left : Nat) (inside : List Container)
    (hv : v.container? = some c) :
    (c ∈ inside ∧ faultOf? (h.toJsonIn left inside v) = some .circular) ∨
    (c ∉ inside ∧ left = 0 ∧ faultOf? (h.toJsonIn left inside v) = some .tooDeep) ∨
    ∃ k, c ∉ inside ∧ left = k + 1 ∧ faultOf? (h.toJsonIn left inside v) =
      (h.members c).findSome? fun w => faultOf? (h.toJsonIn k (c :: inside) w) := by
  by_cases hc : c ∈ inside
  · refine .inl ⟨hc, ?_⟩
    cases v with
    | array id => cases hv; cases left <;> simp [toJsonIn, hc, faultOf?]
    | object id => cases hv; cases left <;> simp [toJsonIn, hc, faultOf?]
    | _ => contradiction
  · cases left with
    | zero =>
      refine .inr (.inl ⟨hc, rfl, ?_⟩)
      cases v with
      | array id => cases hv; simp [toJsonIn, hc, faultOf?]
      | object id => cases hv; simp [toJsonIn, hc, faultOf?]
      | _ => contradiction
    | succ k =>
      refine .inr (.inr ⟨k, hc, rfl, ?_⟩)
      cases v with
      | array id => cases hv; simp [toJsonIn, hc, faultOf?_mapM, members]
      | object id =>
        cases hv
        simp [toJsonIn, hc, faultOf?_mapM, members, List.findSome?_map, Function.comp_def]
      | _ => contradiction

/-- The conversion may follow the path from inside some containers: it comes to none of these, to no
container twice, and to at most `left` of them. -/
def Fits (left : Nat) (inside path : List Container) : Prop :=
  path.length ≤ left ∧ path.Nodup ∧ ∀ c ∈ path, c ∉ inside

theorem fits_cons :
    Fits (left + 1) inside (c :: path) ↔ c ∉ inside ∧ Fits left (c :: inside) path := by
  simp only [Fits, List.length_cons, Nat.add_le_add_iff_right, List.nodup_cons, List.mem_cons,
    forall_eq_or_imp, not_or]
  constructor
  · rintro ⟨hlen, ⟨hc, hn⟩, hci, hin⟩
    exact ⟨hci, hlen, hn, fun d hd => ⟨fun hdc => hc (hdc ▸ hd), hin d hd⟩⟩
  · rintro ⟨hci, hlen, hn, hin⟩
    exact ⟨hlen, ⟨fun hc => (hin c hc).1 rfl, hn⟩, hci, fun d hd => (hin d hd).2⟩

/-- The conversion meets no fault if it may follow every path. -/
theorem fault_eq_none_iff : faultOf? (h.toJsonIn left inside v) = none ↔
    ∀ path, h.Nest v path → Fits left inside path := by
  induction left using Nat.strongRecOn generalizing inside v with | ind left ih
  cases hv : v.container? with
  | none =>
    refine iff_of_true (fault_of_plain hv) fun path hpath => ?_
    simpa [hv] using hpath.container?_isSome
  | some c =>
    obtain ⟨hc, hf⟩ | ⟨-, rfl, hf⟩ | ⟨k, hc, rfl, hf⟩ := h.fault_cases left inside hv
    · refine iff_of_false (by simp [hf]) fun hfits => ?_
      exact (hfits [c] (.stop hv)).2.2 c (List.mem_singleton_self c) hc
    · refine iff_of_false (by simp [hf]) fun hfits => ?_
      exact Nat.not_succ_le_zero 0 (hfits [c] (.stop hv)).1
    · simp only [hf, List.findSome?_eq_none_iff, ih k (Nat.lt_succ_self k)]
      constructor
      · intro hmembers path hpath
        cases hpath with
        | stop hv' =>
          obtain rfl := Option.some.inj (hv.symm.trans hv')
          exact fits_cons.mpr ⟨hc, by simp [Fits]⟩
        | enter hv' hw hpath =>
          obtain rfl := Option.some.inj (hv.symm.trans hv')
          exact fits_cons.mpr ⟨hc, hmembers _ hw _ hpath⟩
      · intro hfits w hw path hpath
        exact (fits_cons.mp (hfits _ (.enter hv hw hpath))).2

/-- What counts as circular is a path that comes to a container twice, or back to one that it is
in. -/
theorem exists_nest_of_circular (hf : faultOf? (h.toJsonIn left inside v) = some .circular) :
    ∃ path, h.Nest v path ∧ ¬ Fits path.length inside path := by
  induction left using Nat.strongRecOn generalizing inside v with | ind left ih
  cases hv : v.container? with
  | none => simp [fault_of_plain hv] at hf
  | some c =>
    obtain ⟨hc, -⟩ | ⟨-, -, hdeep⟩ | ⟨k, -, rfl, hmembers⟩ := h.fault_cases left inside hv
    · exact ⟨[c], .stop hv, fun hfits => hfits.2.2 c (List.mem_singleton_self c) hc⟩
    · simp [hdeep] at hf
    · obtain ⟨w, hw, hfw⟩ := List.exists_of_findSome?_eq_some (hmembers.symm.trans hf)
      obtain ⟨path, hpath, hnot⟩ := ih k (Nat.lt_succ_self k) hfw
      exact ⟨_, .enter hv hw hpath, fun hfits => hnot (fits_cons.mp hfits).2⟩

/-- What counts as too deep is a path of one container more than may be entered, all different. -/
theorem exists_nest_of_tooDeep (hf : faultOf? (h.toJsonIn left inside v) = some .tooDeep) :
    ∃ path, h.Nest v path ∧ path.length = left + 1 ∧ Fits (left + 1) inside path := by
  induction left using Nat.strongRecOn generalizing inside v with | ind left ih
  cases hv : v.container? with
  | none => simp [fault_of_plain hv] at hf
  | some c =>
    obtain ⟨-, hcircular⟩ | ⟨hc, rfl, -⟩ | ⟨k, hc, rfl, hmembers⟩ := h.fault_cases left inside hv
    · simp [hcircular] at hf
    · exact ⟨[c], .stop hv, rfl, fits_cons.mpr ⟨hc, by simp [Fits]⟩⟩
    · obtain ⟨w, hw, hfw⟩ := List.exists_of_findSome?_eq_some (hmembers.symm.trans hf)
      obtain ⟨path, hpath, hlen, hfits⟩ := ih k (Nat.lt_succ_self k) hfw
      exact ⟨_, .enter hv hw hpath, congrArg Nat.succ hlen, fits_cons.mpr ⟨hc, hfits⟩⟩

/-- A value has a JSON form, or is known to have none, if no container in it contains itself and it
nests at most `maxDepth` containers; how often one of them is shared does not matter. The conversion
always comes to an end: with that, or with a fault that tells of a container that contains itself,
or of too many different ones each in the one before. -/
theorem toJson_ok_iff (h : Heap) (v : Value) :
    ((∃ j, h.toJson v = .ok j) ↔
      (∀ c, h.Reaches v c → ¬ Relation.TransGen h.Holds c c) ∧
        ∀ path, h.Nest v path → path.length ≤ maxDepth) ∧
    (h.toJson v = .error .circular →
      ∃ path, h.Nest v path ∧ ∃ c ∈ path, Relation.TransGen h.Holds c c) ∧
    (h.toJson v = .error .tooDeep →
      ∃ path, h.Nest v path ∧ path.length = maxDepth + 1 ∧ path.Nodup) := by
  refine ⟨?_, fun hf => ?_, fun hf => ?_⟩
  · rw [acyclic_iff_nodup, ← faultOf?_eq_none]
    refine fault_eq_none_iff.trans ⟨fun hfits => ?_, fun ⟨hn, hlen⟩ path hpath => ?_⟩
    · exact ⟨fun path hpath => (hfits path hpath).2.1, fun path hpath => (hfits path hpath).1⟩
    · exact ⟨hlen path hpath, hn path hpath, fun c _ => List.not_mem_nil⟩
  · obtain ⟨path, hpath, hnot⟩ := exists_nest_of_circular (faultOf?_eq_some.mpr hf)
    refine ⟨path, hpath, hpath.exists_cycle fun hn => hnot ?_⟩
    exact ⟨Nat.le_refl _, hn, fun c _ => List.not_mem_nil⟩
  · obtain ⟨path, hpath, hlen, hfits⟩ := exists_nest_of_tooDeep (faultOf?_eq_some.mpr hf)
    exact ⟨path, hpath, hlen, hfits.2.1⟩

/-- An array that has another one in it twice, and an array and an object that are in each other. -/
def knots : Heap :=
  { empty with
    objects := #[[("back", .array 2)]]
    arrays := #[#[.array 1, .array 1], #[], #[.object 0]] }

theorem toJson_ok_iff_sample :
    (∀ c, knots.Reaches (.array 0) c → ¬ Relation.TransGen knots.Holds c c) ∧
    ∃ path, knots.Nest (.array 2) path ∧ ∃ c ∈ path, Relation.TransGen knots.Holds c c :=
  ⟨((toJson_ok_iff knots (.array 0)).1.mp ⟨some (.array [.array [], .array []]), rfl⟩).1,
    (toJson_ok_iff knots (.array 2)).2.1 rfl⟩

end Heap

end ModuleLoader.Script
