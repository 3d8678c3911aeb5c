import ModuleLoader.Proofs.Joins
import ModuleLoader.Proofs.Nesting

/-! Renderings without guards. Both renderings of a value leave out a container that is inside
itself, or inside too many others. Here a relation tells what a value looks like; what is left out
is an argument of it, and a number tells how many containers it enters one inside the other. If
nothing is left out, it follows the containers as far as they go, which on a cycle is nowhere. -/
namespace ModuleLoader.Script

/-- A way to render values: the containers that are entered, the texts of all other values, also
inside containers, and the text of a container made of those of its members. `circular` stands for a
container inside itself, and `tooDeep` for one inside too many others. -/
structure Rendering where
  enters : Container → Bool
  atom : Heap → Bool → Value → String
  laid : Heap → Container → List String → String
  circular : String
  tooDeep : Container → String

def Value.primitiveText : Value → String
  | undefined => "undefined"
  | null => "null"
  | bool b => if b then "true" else "false"
  | number x => Number.text x
  | string s => s
  | _ => ""

/-- The container has the same in it in both heaps. -/
def Heap.SameIn (h h' : Heap) : Container → Prop
  | .array id => h'.array id = h.array id
  | .object id => h'.object id = h.object id

theorem Heap.SameIn.members_eq {h h' : Heap} {c : Container} (hc : h.SameIn h' c) :
    h'.members c = h.members c := by
  cases c with
  | array id => exact congrArg Array.toList hc
  | object id => exact congrArg (List.map Prod.snd) hc

namespace Rendering

/-- Values as parts of strings: items are separated by commas, and absent ones leave nothing. -/
def displayed : Rendering where
  enters
    | .array _ => true
    | .object _ => false
  atom h inner
    | .object _ => "[object Object]"
    | .function id => "function " ++ ((h.closure id).literal.name).getD "" ++ "() \x7b [code] \x7d"
    | .native n => "function " ++ n.name ++ "() \x7b [native code] \x7d"
    | v => if inner && v.isAbsent then "" else v.primitiveText
  laid _ _ texts := ",".intercalate texts
  circular := ""
  tooDeep _ := ""

/-- Values as a reader sees them: containers in brackets, and the strings in them in quotes. -/
def inspected : Rendering where
  enters _ := true
  atom h inner
    | .string s => if inner then Heap.innerString s else s
    | .function id =>
      match (h.closure id).literal.name with
      | some name => "[Function: " ++ name ++ "]"
      | none => "[Function (anonymous)]"
    | .native n => "[Function: " ++ n.name ++ "]"
    | v => v.primitiveText
  laid h c texts :=
    match c with
    | .array _ => if texts.isEmpty then "[]" else "[ " ++ ", ".intercalate texts ++ " ]"
    | .object id =>
      if texts.isEmpty then "\x7b\x7d"
      else "\x7b " ++ ", ".intercalate
        (List.zipWith (fun key text => Heap.keyText key ++ ": " ++ text) (h.object id).keys texts)
          ++ " \x7d"
  circular := "[Circular]"
  tooDeep
    | .array _ => "[Array]"
    | .object _ => "[Object]"

def container? (R : Rendering) (v : Value) : Option Container :=
  v.container?.filter R.enters

/-- The text, if any, that stands for a container inside others. -/
abbrev Guard := List Container → Container → Option String

/-- A container inside itself is left out, and so is one inside `maxDepth` others. -/
def guard (R : Rendering) : Guard := fun inside c =>
  if c ∈ inside then some R.circular
  else if maxDepth ≤ inside.length then some (R.tooDeep c)
  else none

def unguarded : Guard := fun _ _ => none

/-- Inside some containers the value looks so, and at most `n` more are entered one inside the
other. -/
inductive Renders (R : Rendering) (guard : Guard) (h : Heap) :
    Nat → List Container → Value → String → Prop where
  | atom {n : Nat} {inside : List Container} {v : Value} (hv : R.container? v = none) :
      Renders R guard h n inside v (R.atom h (!inside.isEmpty) v)
  | guarded {n : Nat} {inside : List Container} {v : Value} {c : Container} {text : String}
      (hv : R.container? v = some c) (hc : guard inside c = some text) :
      Renders R guard h n inside v text
  | entered {n : Nat} {inside : List Container} {v : Value} {c : Container}
      {look : Value → String} (hv : R.container? v = some c) (hc : guard inside c = none)
      (hmembers : ∀ w ∈ h.members c, Renders R guard h n (c :: inside) w (look w)) :
      Renders R guard h (n + 1) inside v (R.laid h c ((h.members c).map look))

variable {R : Rendering} {guard : Guard} {h : Heap} {n n' left : Nat} {inside : List Container}
  {v : Value} {c : Container} {s s' : String}

/-- A value looks one way only, however many containers may be entered. -/
theorem Renders.unique (hs : R.Renders guard h n inside v s)
    (hs' : R.Renders guard h n' inside v s') : s = s' := by
  induction hs generalizing n' s' with
  | atom hv =>
    cases hs' with
    | atom => rfl
    | guarded hv' | entered hv' => simp [hv] at hv'
  | guarded hv hc =>
    cases hs' with
    | atom hv' => simp [hv] at hv'
    | guarded hv' hc' =>
      obtain rfl := Option.some.inj (hv.symm.trans hv')
      exact Option.some.inj (hc.symm.trans hc')
    | entered hv' hc' =>
      obtain rfl := Option.some.inj (hv.symm.trans hv')
      simp [hc] at hc'
  | entered hv hc _ ih =>
    cases hs' with
    | atom hv' => simp [hv] at hv'
    | guarded hv' hc' =>
      obtain rfl := Option.some.inj (hv.symm.trans hv')
      simp [hc] at hc'
    | entered hv' _ hmembers' =>
      obtain rfl := Option.some.inj (hv.symm.trans hv')
      rw [List.map_congr_left fun w hw => ih w hw (hmembers' w hw)]

theorem guard_eq_none_iff :
    R.guard inside c = none ↔ c ∉ inside ∧ inside.length < maxDepth := by
  unfold Rendering.guard
  split
  · simp [*]
  · split
    · simp [*]
    · simp [*]
      omega

/-- No guard is met on a value of which every path may be followed. -/
theorem Renders.unguarded (hs : R.Renders R.guard h n inside v s)
    (hfits : ∀ path, h.Nest v path → Heap.Fits (maxDepth - inside.length) inside path) :
    R.Renders Rendering.unguarded h n inside v s := by
  induction hs with
  | atom hv => exact .atom hv
  | @guarded n inside v c text hv hc =>
    -- the path that ends at the container fits, so no guard stands in front of it
    obtain ⟨hlength, -, hnew⟩ := hfits [c] (.stop (Option.filter_eq_some_iff.mp hv).1)
    have hnone : R.guard inside c = none := by
      refine guard_eq_none_iff.mpr ⟨hnew c (List.mem_singleton_self c), ?_⟩
      rw [List.length_singleton] at hlength
      omega
    simp [hc] at hnone
  | @entered n inside v c look hv hc _ ih =>
    refine .entered hv rfl fun w hw => ih w hw fun path hpath => ?_
    -- one level is used up, and paths from here on have to stay clear of one container more
    have hlength : maxDepth - inside.length = maxDepth - (inside.length + 1) + 1 := by
      have hlt := (guard_eq_none_iff.mp hc).2
      omega
    have hcons := hfits (c :: path) (.enter (Option.filter_eq_some_iff.mp hv).1 hw hpath)
    rw [hlength] at hcons
    exact (Heap.fits_cons.mp hcons).2

/-- Of a heap it matters only how functions are made and what is in the containers that are
rendered. -/
structure Local (R : Rendering) : Prop where
  atom : ∀ {h h' : Heap} {inner v}, h'.closures = h.closures → R.atom h' inner v = R.atom h inner v
  laid : ∀ {h h' : Heap} {c texts}, h.SameIn h' c → R.laid h' c texts = R.laid h c texts

/-- Nothing that lies further down than containers are entered makes a difference. -/
theorem Renders.of_same {h' : Heap} (hR : R.Local) (hs : R.Renders guard h n inside v s)
    (hclosures : h'.closures = h.closures)
    (hsame : ∀ path, h.Nest v path → path.length ≤ n → ∀ c ∈ path, h.SameIn h' c) :
    R.Renders guard h' n inside v s := by
  induction hs with
  | atom hv =>
    rw [← hR.atom hclosures]
    exact .atom hv
  | guarded hv hc => exact .guarded hv hc
  | @entered n inside v c look hv hc _ ih =>
    have hcontainer := (Option.filter_eq_some_iff.mp hv).1
    have hthis : h.SameIn h' c :=
      hsame [c] (.stop hcontainer) (Nat.le_add_left 1 n) c (List.mem_singleton_self c)
    rw [← hR.laid hthis, ← hthis.members_eq]
    refine .entered hv hc fun w hw => ?_
    rw [hthis.members_eq] at hw
    refine ih w hw fun path hpath hlength d hd => ?_
    exact hsame (c :: path) (.enter hcontainer hw hpath) (Nat.succ_le_succ hlength) d
      (List.mem_cons_of_mem c hd)

/-- The function renders values with the guards: as it goes into a container, it has one level less
left and one container more to be inside of. -/
structure Computes (R : Rendering) (h : Heap) (text : Nat → List Container → Value → String) :
    Prop where
  atom : ∀ {left inside v}, R.container? v = none →
    text left inside v = R.atom h (!inside.isEmpty) v
  circular : ∀ {left inside v c}, R.container? v = some c → c ∈ inside →
    text left inside v = R.circular
  tooDeep : ∀ {inside v c}, R.container? v = some c → c ∉ inside →
    text 0 inside v = R.tooDeep c
  entered : ∀ {left inside v c}, R.container? v = some c → c ∉ inside →
    text (left + 1) inside v = R.laid h c ((h.members c).map (text left (c :: inside)))

namespace Computes

variable {text : Nat → List Container → Value → String} (htext : R.Computes h text)

include htext

theorem renders (hleft : inside.length + left = maxDepth) :
    R.Renders R.guard h left inside v (text left inside v) := by
  induction left generalizing inside v with
  | zero =>
    cases hv : R.container? v with
    | none =>
      rw [htext.atom hv]
      exact .atom hv
    | some c =>
      by_cases hc : c ∈ inside
      · rw [htext.circular hv hc]
        exact .guarded hv (if_pos hc)
      · rw [htext.tooDeep hv hc]
        exact .guarded hv ((if_neg hc).trans (if_pos (by omega)))
  | succ left ih =>
    cases hv : R.container? v with
    | none =>
      rw [htext.atom hv]
      exact .atom hv
    | some c =>
      by_cases hc : c ∈ inside
      · rw [htext.circular hv hc]
        exact .guarded hv (if_pos hc)
      · rw [htext.entered hv hc]
        refine .entered hv (guard_eq_none_iff.mpr ⟨hc, by omega⟩) fun w _ => ih ?_
        rw [List.length_cons]
        omega

/-- What the function gives is the guarded rendering, and it enters at most `maxDepth` containers
one inside the other. -/
theorem guarded_iff (v : Value) (s : String) :
    (∃ n ≤ maxDepth, R.Renders R.guard h n [] v s) ↔ s = text maxDepth [] v := by
  have hrenders : R.Renders R.guard h maxDepth [] v (text maxDepth [] v) :=
    htext.renders (Nat.zero_add _)
  constructor
  · rintro ⟨n, -, hs⟩
    exact hs.unique hrenders
  · rintro rfl
    exact ⟨maxDepth, Nat.le_refl _, hrenders⟩

/-- What is further down than `maxDepth` containers makes no difference to it. -/
theorem eq_of_same {h' : Heap} {text' : Nat → List Container → Value → String}
    (htext' : R.Computes h' text') (hR : R.Local) (hclosures : h'.closures = h.closures)
    (hsame : ∀ path, h.Nest v path → path.length ≤ maxDepth → ∀ c ∈ path, h.SameIn h' c) :
    text' maxDepth [] v = text maxDepth [] v := by
  have hrenders : R.Renders R.guard h maxDepth [] v (text maxDepth [] v) :=
    htext.renders (Nat.zero_add _)
  exact (htext'.renders (Nat.zero_add _)).unique (hrenders.of_same hR hclosures hsame)

/-- On a value that is neither cyclic nor too deep it is the unguarded rendering as well. -/
theorem unguarded_iff (hacyclic : ∀ c, h.Reaches v c → ¬ Relation.TransGen h.Holds c c)
    (hdeep : ∀ path, h.Nest v path → path.length ≤ maxDepth) (s : String) :
    (∃ n, R.Renders unguarded h n [] v s) ↔ s = text maxDepth [] v := by
  have hnodup := (h.acyclic_iff_nodup v).mp hacyclic
  have hrenders : R.Renders unguarded h maxDepth [] v (text maxDepth [] v) :=
    (htext.renders (Nat.zero_add _)).unguarded fun path hpath =>
      ⟨hdeep path hpath, hnodup path hpath, fun _ _ => List.not_mem_nil⟩
  constructor
  · rintro ⟨n, hs⟩
    exact hs.unique hrenders
  · rintro rfl
    exact ⟨maxDepth, hrenders⟩

end Computes

end Rendering

/-! ### The two renderings -/

namespace Heap

open Rendering

variable {h : Heap} {left : Nat} {inside : List Container} {v : Value} {c : Container}

/-- The arrays among some containers. -/
def arraysOf (inside : List Container) : List ArrayId :=
  inside.filterMap fun
    | .array id => some id
    | .object _ => none

theorem mem_arraysOf {id : ArrayId} : id ∈ arraysOf inside ↔ .array id ∈ inside := by
  rw [arraysOf, List.mem_filterMap]
  constructor
  · rintro ⟨c, hc, heq⟩
    cases c with
    | array id' => rwa [← Option.some.inj heq]
    | object id' => cases heq
  · exact fun hid => ⟨_, hid, rfl⟩

theorem array_of_displayed (hv : displayed.container? v = some c) :
    ∃ id, v = .array id ∧ c = .array id := by
  cases v with
  | array id => exact ⟨id, rfl, (Option.some.inj hv).symm⟩
  | _ => cases hv

theorem container?_of_inspected (hv : inspected.container? v = some c) : v.container? = some c :=
  (Option.filter_eq_some_iff.mp hv).1

/-- A value as a part of a string, inside some containers of which only the arrays count. -/
def displayInside (h : Heap) (left : Nat) (inside : List Container) (v : Value) : String :=
  if inside.isEmpty then h.displayIn left [] v else h.partIn left (arraysOf inside) v

theorem displayInside_array (id : ArrayId) : h.displayInside left inside (.array id) =
    h.displayIn left (arraysOf inside) (.array id) := by
  cases inside <;> rfl

theorem computes_display (h : Heap) : displayed.Computes h h.displayInside where
  atom {left inside v} hv := by
    cases v with
    | array id => cases hv
    | bool b => cases b <;> cases inside <;> cases left <;> rfl
    | _ => cases inside <;> cases left <;> rfl
  circular hv hc := by
    obtain ⟨id, rfl, rfl⟩ := array_of_displayed hv
    rw [displayInside_array]
    exact displayIn_array_eq_empty (.inl (mem_arraysOf.mpr hc))
  tooDeep hv _ := by
    obtain ⟨id, rfl, rfl⟩ := array_of_displayed hv
    rw [displayInside_array]
    exact displayIn_array_eq_empty (.inr rfl)
  entered hv hc := by
    obtain ⟨id, rfl, rfl⟩ := array_of_displayed hv
    rw [displayInside_array]
    exact displayIn_array_of_notMem (mt mem_arraysOf.mp hc)

theorem computes_inspect (h : Heap) : inspected.Computes h h.inspectIn where
  atom {left inside v} hv := by
    cases v with
    | array id | object id => cases hv
    | bool b => cases b <;> cases left <;> rfl
    | _ => cases inside <;> cases left <;> rfl
  circular {left inside v c} hv hc := by
    replace hv := container?_of_inspected hv
    cases v with
    | array id | object id => cases hv; cases left <;> simp [inspectIn, hc, inspected]
    | _ => contradiction
  tooDeep {inside v c} hv hc := by
    replace hv := container?_of_inspected hv
    cases v with
    | array id | object id => cases hv; simp [inspectIn, hc, inspected]
    | _ => contradiction
  entered {left inside v c} hv hc := by
    replace hv := container?_of_inspected hv
    cases v with
    | array id => cases hv; simp [inspectIn, hc, inspected, members]
    | object id =>
      cases hv
      simp [inspectIn, hc, inspected, members, Dict.keys, List.zipWith_map]
    | _ => contradiction

theorem local_displayed : displayed.Local where
  atom {h h' inner v} hclosures := by cases v <;> simp [displayed, closure, hclosures]
  laid _ := rfl

theorem local_inspected : inspected.Local where
  atom {h h' inner v} hclosures := by cases v <;> simp [inspected, closure, hclosures]
  laid {h h' c texts} hc := by
    cases c with
    | array id => rfl
    | object id =>
      have hobject : h'.object id = h.object id := hc
      simp only [inspected, hobject]

/-- Both renderings of a value are the plain ones, which leave nothing out and go as deep as the
value does, if no container in it contains itself and it nests at most `maxDepth` containers; how
often one of them is shared does not matter. And whatever the value is, cyclic or not, both come to
an end, having entered at most `maxDepth` containers one inside the other: of what is in a container
further down they know nothing. -/
theorem renderings_exact (h : Heap) (v : Value) :
    ((∀ c, h.Reaches v c → ¬ Relation.TransGen h.Holds c c) →
      (∀ path, h.Nest v path → path.length ≤ maxDepth) →
        (∀ s, (∃ n, inspected.Renders unguarded h n [] v s) ↔ s = h.inspect v) ∧
        ∀ s, (∃ n, displayed.Renders unguarded h n [] v s) ↔ s = h.display v) ∧
    (∀ s, (∃ n ≤ maxDepth, inspected.Renders inspected.guard h n [] v s) ↔ s = h.inspect v) ∧
    (∀ s, (∃ n ≤ maxDepth, displayed.Renders displayed.guard h n [] v s) ↔ s = h.display v) ∧
    ∀ h' : Heap, h'.closures = h.closures →
      (∀ path, h.Nest v path → path.length ≤ maxDepth → ∀ c ∈ path, h.SameIn h' c) →
        h'.inspect v = h.inspect v ∧ h'.display v = h.display v := by
  have hinspect := h.computes_inspect
  have hdisplay := h.computes_display
  refine ⟨fun hacyclic hdeep => ?_, hinspect.guarded_iff v, hdisplay.guarded_iff v,
    fun h' hclosures hsame => ?_⟩
  · exact ⟨hinspect.unguarded_iff hacyclic hdeep, hdisplay.unguarded_iff hacyclic hdeep⟩
  · exact ⟨hinspect.eq_of_same h'.computes_inspect local_inspected hclosures hsame,
      hdisplay.eq_of_same h'.computes_display local_displayed hclosures hsame⟩

/-- An array that has another one in it twice is rendered plainly; an array in an object that is in
that array is left out there. -/
theorem renderings_exact_sample :
    (∀ c, knots.Reaches (.array 0) c → ¬ Relation.TransGen knots.Holds c c) ∧
    (∀ path, knots.Nest (.array 0) path → path.length ≤ maxDepth) ∧
    (∃ n, inspected.Renders unguarded knots n [] (.array 0) "[ [], [] ]") ∧
    (∃ n, displayed.Renders unguarded knots n [] (.array 0) ",") ∧
    ∃ n ≤ maxDepth, inspected.Renders inspected.guard knots n [] (.array 2)
      "[ \x7b back: [Circular] \x7d ]" := by
  have hfits : ∀ path, knots.Nest (.array 0) path → Fits maxDepth [] path :=
    fault_eq_none_iff.mp rfl
  have hacyclic := (knots.acyclic_iff_nodup (.array 0)).mpr fun path hpath => (hfits path hpath).2.1
  have hdeep (path : List Container) (hpath : knots.Nest (.array 0) path) :
      path.length ≤ maxDepth := (hfits path hpath).1
  obtain ⟨hplain, -⟩ := renderings_exact knots (.array 0)
  obtain ⟨hinspect, hdisplay⟩ := hplain hacyclic hdeep
  obtain ⟨-, hguarded, -⟩ := renderings_exact knots (.array 2)
  exact ⟨hacyclic, hdeep, (hinspect _).mpr (by decide +kernel),
    (hdisplay _).mpr (by decide +kernel), (hguarded _).mpr (by decide +kernel)⟩

end Heap

end ModuleLoader.Script
