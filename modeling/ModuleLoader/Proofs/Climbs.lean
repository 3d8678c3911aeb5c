import Mathlib.Tactic.IntervalCases
import ModuleLoader.Proofs.Following

/-! What normalizing does to relative paths. A path climbs some way out of the place it is followed
from and then goes down to names of its own. Its normal form has the same names, but of the steps
up it keeps one at most: each further one takes back the one before it. So a normal form denotes
what its path denotes just when the path climbs no higher than one step, or higher than there is. -/
namespace ModuleLoader

namespace Location

variable {place : Location} {part : String}

/-- How many names parts take away from a place that is deep enough. -/
def climb : List String → Nat
  | [] => 0
  | part :: rest =>
    if part = "" ∨ part = "." then climb rest
    else if part = ".." then climb rest + 1
    else climb rest - 1

/-- A part stands for nothing, for a step up or for a name. -/
theorem step_cases (part : String) (rest : List String) :
    (Path.component? part = none ∧ climb (part :: rest) = climb rest ∧
      ∀ place : Location, place.step part = place) ∨
    (Path.component? part = some .up ∧ climb (part :: rest) = climb rest + 1 ∧
      ∀ place : Location, place.step part = place.dropLast) ∨
    (Path.component? part = some (.name part) ∧ climb (part :: rest) = climb rest - 1 ∧
      ∀ place : Location, place.step part = place ++ [part]) := by
  rw [climb]
  unfold Path.component? step
  by_cases hdot : part = "" ∨ part = "."
  · exact .inl (by simp [hdot])
  · by_cases hup : part = ".."
    · exact .inr (.inl (by simp [hup]))
    · exact .inr (.inr (by simp [hdot, hup]))

/-- Following parts drops the names they climb over and then adds names of their own, whatever the
place. -/
theorem foldl_step_eq (place : Location) (parts : List String) :
    parts.foldl step place =
      place.take (place.length - climb parts) ++ parts.foldl step [] := by
  induction parts generalizing place with
  | nil => simp [climb]
  | cons part rest ih =>
    rw [List.foldl_cons, List.foldl_cons, ih (place.step part), ih (step [] part)]
    obtain ⟨-, hclimb, hstep⟩ | ⟨-, hclimb, hstep⟩ | ⟨-, hclimb, hstep⟩ := step_cases part rest
    · simp [hclimb, hstep]
    · rw [hclimb, hstep, hstep, List.length_dropLast, List.dropLast_eq_take, List.take_take]
      have hlength : min (place.length - 1 - climb rest) (place.length - 1) =
          place.length - (climb rest + 1) := by omega
      rw [hlength]
      simp
    · rw [hclimb, hstep, hstep, List.length_append, List.length_singleton]
      cases climb rest with
      | zero =>
        have hall : (place ++ [part]).length ≤ place.length + 1 := by simp
        rw [Nat.sub_zero, List.take_of_length_le hall]
        simp
      | succ n => simp [List.take_append_of_le_length]

end Location

namespace Path

variable {dir p : Path} {place : Location}

def climb (p : Path) : Nat :=
  Location.climb p.parts

theorem follow_eq (h : p.isAbsolute = false) (place : Location) :
    place.follow p = place.take (place.length - p.climb) ++ Location.follow [] p := by
  rw [Location.follow_of_relative h, Location.follow_of_relative h]
  exact Location.foldl_step_eq place p.parts

/-- The components of a way up and then down to a location, last first. -/
def descent (ups : Nat) (place : Location) : List Component :=
  (place.map .name).reverse ++ List.replicate ups .up

/-- Walking a relative path keeps none of two steps up. -/
theorem foldl_walk_descent (parts : List String) {ups : Nat} (h : ups ≤ 1) (place : Location) :
    (parts.filterMap component?).foldl walk (descent ups place) =
      descent ((ups + (Location.climb parts - place.length)) % 2)
        (parts.foldl Location.step place) := by
  induction parts generalizing ups place with
  | nil => simp [Location.climb, Nat.mod_eq_of_lt (Nat.lt_succ_of_le h)]
  | cons part rest ih =>
    rw [List.foldl_cons]
    obtain ⟨hcomponent, hclimb, hstep⟩ | ⟨hcomponent, hclimb, hstep⟩ |
      ⟨hcomponent, hclimb, hstep⟩ := Location.step_cases part rest
    · rw [List.filterMap_cons_none hcomponent, hclimb, hstep, ih h]
    · rw [List.filterMap_cons_some hcomponent, List.foldl_cons, hclimb, hstep]
      obtain rfl | ⟨front, last, rfl⟩ := List.eq_nil_or_concat place
      · have hwalk : walk (descent ups []) .up = descent (1 - ups) [] := by
          interval_cases ups <;> rfl
        rw [hwalk, ih (Nat.sub_le _ _), List.dropLast_nil]
        congr 1
        simp only [List.length_nil]
        omega
      · have hwalk : walk (descent ups (front.concat last)) .up = descent ups front := by
          simp [descent, walk]
        rw [hwalk, ih h]
        simp
    · have hwalk : walk (descent ups place) (.name part) = descent ups (place ++ [part]) := by
        simp [descent, walk]
      rw [List.filterMap_cons_some hcomponent, List.foldl_cons, hwalk, hclimb, hstep, ih h,
        List.length_append, List.length_singleton, Nat.sub_sub, Nat.add_comm 1]

theorem foldl_walk_components (h : p.isAbsolute = false) (back : List Component) :
    p.components.foldl walk back = (p.parts.filterMap component?).foldl walk back := by
  unfold components
  cases hparts : p.parts with
  | nil => rfl
  | cons first rest =>
    rw [h, List.foldl_append, List.filterMap_cons]
    by_cases hdot : first = "."
    · simp [firstComponent?, component?, hdot, walk]
    · cases hfirst : component? first <;> simp [firstComponent?, hdot, hfirst]

theorem ofComponents_of_ne_root {cs : List Component} (h : .root ∉ cs) :
    ofComponents cs = ⟨"/".intercalate (cs.map Component.text)⟩ := by
  unfold ofComponents
  split
  · simp at h
  · rfl

/-- What the normal form of a relative path spells: one step up if the path climbs an odd way, and
then its names. -/
def normalParts (p : Path) : List String :=
  List.replicate (p.climb % 2) ".." ++ Location.follow [] p

theorem normalize_of_relative (h : p.isAbsolute = false) :
    p.normalize = ⟨"/".intercalate p.normalParts⟩ := by
  have hwalk := foldl_walk_descent p.parts (Nat.zero_le 1) []
  rw [List.length_nil, Nat.sub_zero, Nat.zero_add] at hwalk
  rw [normalize, foldl_walk_components h, show [] = descent 0 [] from rfl, hwalk,
    ofComponents_of_ne_root (by simp [descent]), normalParts, Location.follow_of_relative h]
  simp [descent, climb, Function.comp_def, Component.text]

theorem of_mem_normalParts {s : String} (h : s ∈ p.normalParts) :
    '/' ∉ s.toList ∧ s ≠ "" ∧ s ≠ "." := by
  obtain h | h := List.mem_append.mp h
  · obtain rfl := List.eq_of_mem_replicate h
    decide
  · obtain ⟨hslash, hname⟩ := (Location.proper_root.follow p) s h
    obtain ⟨hempty, hdot, -⟩ := component?_eq_name.mp hname
    exact ⟨hslash, hempty, hdot⟩

end Path

namespace Location

variable {place : Location} {p dir : Path}

theorem foldl_step_ups (place : Location) (ups : Nat) :
    (List.replicate ups "..").foldl step place = place.take (place.length - ups) := by
  induction ups generalizing place with
  | zero => simp
  | succ n ih =>
    have hstep : place.step ".." = place.dropLast := rfl
    rw [List.replicate_succ, List.foldl_cons, hstep, ih, List.length_dropLast,
      List.dropLast_eq_take, List.take_take]
    congr 1
    omega

theorem follow_intercalate {texts : List String} (h : ∀ s ∈ texts, '/' ∉ s.toList ∧ s ≠ "")
    (place : Location) :
    Path.isAbsolute ⟨"/".intercalate texts⟩ = false ∧
      place.follow ⟨"/".intercalate texts⟩ = texts.foldl step place := by
  cases texts with
  | nil => exact ⟨rfl, place.follow_empty⟩
  | cons s rest =>
    have hparts := Path.parts_intercalate (fun t ht => (h t ht).1) (List.cons_ne_nil s rest)
    have hrelative : Path.isAbsolute ⟨"/".intercalate (s :: rest)⟩ = false := by
      by_contra habsolute
      obtain ⟨others, hothers⟩ := Path.parts_of_isAbsolute (by simpa using habsolute)
      rw [hparts] at hothers
      exact (h s (by simp)).2 (List.cons.inj hothers).1
    exact ⟨hrelative, by rw [follow_of_relative hrelative, hparts]⟩

/-- A normal form takes away one name or none and adds the names that its path adds. -/
theorem follow_normalize (h : p.isAbsolute = false) (place : Location) :
    place.follow p.normalize = place.take (place.length - p.climb % 2) ++ follow [] p := by
  have htexts (s : String) (hs : s ∈ p.normalParts) : '/' ∉ s.toList ∧ s ≠ "" :=
    (Path.of_mem_normalParts hs).imp_right And.left
  rw [Path.normalize_of_relative h, (follow_intercalate htexts place).2, Path.normalParts,
    List.foldl_append, foldl_step_ups, (proper_root.follow p).foldl_step_self]

theorem follow_normalize_eq_iff (h : p.isAbsolute = false) :
    place.follow p.normalize = place.follow p ↔ p.climb ≤ 1 ∨ place.length ≤ p.climb % 2 := by
  rw [follow_normalize h, Path.follow_eq h place, List.append_cancel_right_eq]
  constructor
  · intro heq
    have hlength := congrArg List.length heq
    rw [List.length_take, List.length_take] at hlength
    omega
  · rintro (hclimb | hdepth)
    · rw [Nat.mod_eq_of_lt (Nat.lt_succ_of_le hclimb)]
    · have hmod := Nat.mod_le p.climb 2
      rw [Nat.sub_eq_zero_of_le hdepth, Nat.sub_eq_zero_of_le (hdepth.trans hmod)]

end Location

namespace Path

variable {dir p q : Path}

/-- A path spelled by steps up and names has them for its components. -/
theorem components_intercalate {texts : List String}
    (h : ∀ s ∈ texts, '/' ∉ s.toList ∧ s ≠ "" ∧ s ≠ ".") :
    components ⟨"/".intercalate texts⟩ = texts.filterMap component? := by
  obtain ⟨hrelative, -⟩ :=
    Location.follow_intercalate (fun s hs => (h s hs).imp_right And.left) []
  cases texts with
  | nil => rfl
  | cons s rest =>
    have hparts := parts_intercalate (fun t ht => (h t ht).1) (List.cons_ne_nil s rest)
    have hdot : s ≠ "." := (h s (List.mem_cons_self ..)).2.2
    rw [components, hparts, hrelative]
    cases hs : component? s <;> simp [firstComponent?, hdot, hs]

theorem isAbsolute_normalize (h : p.isAbsolute = false) : p.normalize.isAbsolute = false := by
  rw [normalize_of_relative h]
  exact (Location.follow_intercalate (fun _ hs => (of_mem_normalParts hs).imp_right And.left) []).1

/-- Below an absolute directory, the normal form of a path denotes what the path denotes just when
the path is absolute, climbs at most one step or finds the directory no deeper than the one step
that its normal form keeps. -/
theorem normalize_join_normalize_iff (h : dir.isAbsolute = true) (p : Path) :
    (dir.join p.normalize).normalize = (dir.join p).normalize ↔
      p.isAbsolute = true ∨ p.climb ≤ 1 ∨ (Location.follow [] dir).length ≤ p.climb % 2 := by
  cases habsolute : p.isAbsolute with
  | true =>
    have hcanonical := canonical_normalize habsolute
    simp [join_of_isAbsolute dir habsolute, join_of_isAbsolute dir hcanonical.isAbsolute,
      hcanonical.normalize]
  | false =>
    have hplace : (Location.follow [] dir).Proper := Location.proper_root.follow dir
    rw [normalize_join h, normalize_join h, ← Location.follow_normalize_eq_iff habsolute]
    simp only [Bool.false_eq_true, false_or]
    constructor
    · intro heq
      rw [← (hplace.follow p.normalize).follow_path [], heq, (hplace.follow p).follow_path []]
    · intro heq
      rw [heq]

theorem normalize_join_normalize_iff_sample :
    (Path.join ⟨"/a/b/c"⟩ (Path.normalize ⟨"x/../../d"⟩)).normalize =
      (Path.join ⟨"/a/b/c"⟩ ⟨"x/../../d"⟩).normalize ∧
    (Path.join ⟨"/a/b/c"⟩ (Path.normalize ⟨"x/../../.."⟩)).normalize ≠
      (Path.join ⟨"/a/b/c"⟩ ⟨"x/../../.."⟩).normalize := by
  have h : Path.isAbsolute ⟨"/a/b/c"⟩ = true := by decide +kernel
  refine ⟨(normalize_join_normalize_iff h ⟨"x/../../d"⟩).mpr (by decide +kernel), ?_⟩
  rw [ne_eq, normalize_join_normalize_iff h ⟨"x/../../.."⟩]
  decide +kernel

/-- Two steps up are lost. -/
theorem normalize_join_normalize_ne : ¬∀ dir p : Path, dir.isAbsolute = true →
    (dir.join p.normalize).normalize = (dir.join p).normalize := by
  intro h
  have hsame := h ⟨"/a/b/c"⟩ ⟨"../.."⟩ (by decide +kernel)
  revert hsame
  decide +kernel

end Path

end ModuleLoader
