import Mathlib.Data.List.Induction
import ModuleLoader.Loading.Resolve

/-! Canonical paths. An absolute path leads to a location, and its normal form is the one path that
spells this location name by name. What a reference resolves to is such a path, and therefore stands
for itself, seen from any directory. -/
namespace ModuleLoader

namespace Path

theorem split_eq_splitOn (cs : List Char) : split cs = cs.splitOn '/' := by
  induction cs with
  | nil => rw [split, List.splitOn_nil]
  | cons c rest ih =>
    rw [split, List.splitOn_cons_eq_if_modifyHead, ih]
    simp only [beq_iff_eq]
    split
    · rfl
    · cases hrest : rest.splitOn '/' with
      | nil => exact (List.splitOn_ne_nil _ _ hrest).elim
      | cons => rfl

theorem not_mem_of_mem_split {cs part : List Char} (h : part ∈ split cs) : '/' ∉ part := by
  induction cs generalizing part with
  | nil =>
    obtain rfl : part = [] := by simpa [split] using h
    simp
  | cons c rest ih =>
    rw [split] at h
    split at h
    · obtain rfl | h := List.mem_cons.mp h
      · simp
      · exact ih h
    · rename_i hc
      cases hsplit : split rest with
      | nil =>
        rw [hsplit] at h
        obtain rfl : part = [c] := by simpa using h
        simpa using Ne.symm hc
      | cons first parts =>
        rw [hsplit] at h ih
        obtain rfl | h := List.mem_cons.mp h
        · simpa [Ne.symm hc] using ih (List.mem_cons_self ..)
        · exact ih (List.mem_cons_of_mem _ h)

theorem not_mem_of_mem_parts {p : Path} {part : String} (h : part ∈ p.parts) :
    '/' ∉ part.toList := by
  obtain ⟨cs, hcs, rfl⟩ := List.mem_map.mp h
  simpa using not_mem_of_mem_split hcs

theorem parts_intercalate {texts : List String} (h : ∀ s ∈ texts, '/' ∉ s.toList)
    (hne : texts ≠ []) : parts ⟨"/".intercalate texts⟩ = texts := by
  have hsplit : split ("/".intercalate texts).toList = texts.map String.toList := by
    rw [split_eq_splitOn, String.toList_intercalate]
    refine List.splitOn_intercalate '/' ?_ (by simpa using hne)
    simpa using h
  rw [parts, hsplit, List.map_map]
  simp [Function.comp_def]

theorem component?_eq_name {part : String} : component? part = some (.name part) ↔
    part ≠ "" ∧ part ≠ "." ∧ part ≠ ".." := by
  unfold component?
  grind

end Path

/-! ### Locations and the paths that denote them -/

namespace Location

/-- A location that paths can lead to: its names are parts of paths. -/
def Proper (place : Location) : Prop :=
  ∀ s ∈ place, '/' ∉ s.toList ∧ Path.component? s = some (.name s)

def components (place : Location) : List Path.Component :=
  .root :: place.map .name

variable {place : Location} {part : String}

theorem proper_root : Proper [] :=
  nofun

theorem Proper.step (h : place.Proper) (hpart : '/' ∉ part.toList) :
    (place.step part).Proper := by
  unfold Location.step
  split
  · exact h
  · split
    · exact fun s hs => h s (List.dropLast_subset _ hs)
    · rename_i hdot hup
      intro s hs
      obtain hs | rfl : s ∈ place ∨ s = part := by simpa using hs
      · exact h s hs
      · exact ⟨hpart, Path.component?_eq_name.mpr (by tauto)⟩

theorem Proper.foldl_step {parts : List String} (h : place.Proper)
    (hparts : ∀ part ∈ parts, '/' ∉ part.toList) : (parts.foldl Location.step place).Proper := by
  induction parts generalizing place with
  | nil => exact h
  | cons part rest ih =>
    refine ih (h.step (hparts part (by simp))) ?_
    intro other hother
    exact hparts other (List.mem_cons_of_mem _ hother)

theorem step_of_name (h : Path.component? part = some (.name part)) :
    place.step part = place ++ [part] := by
  obtain ⟨hempty, hdot, hup⟩ := Path.component?_eq_name.mp h
  simp [Location.step, hempty, hdot, hup]

theorem Proper.foldl_step_self (h : place.Proper) (start : Location) :
    place.foldl Location.step start = start ++ place := by
  induction place generalizing start with
  | nil => simp
  | cons s rest ih =>
    rw [List.foldl_cons, step_of_name (h s (by simp)).2, ih]
    · simp
    · exact fun other hother => h other (List.mem_cons_of_mem _ hother)

/-- A step along a path is a step on the components, whatever the part stands for. -/
theorem walk_component? (place : Location) (part : String) :
    (Path.component? part).toList.foldl Path.walk place.components.reverse =
      (place.step part).components.reverse := by
  unfold Path.component? Location.step
  split
  · rfl
  · split
    · obtain rfl | ⟨front, last, rfl⟩ := List.eq_nil_or_concat place
      · rfl
      · simp [components, Path.walk]
    · simp [components, Path.walk]

theorem walk_components (place : Location) (parts : List String) :
    (parts.filterMap Path.component?).foldl Path.walk place.components.reverse =
      (parts.foldl Location.step place).components.reverse := by
  induction parts generalizing place with
  | nil => rfl
  | cons part rest ih =>
    rw [List.foldl_cons, ← ih, ← walk_component?]
    cases hc : Path.component? part <;> simp [hc]

theorem path_eq_intercalate (hne : place ≠ []) : place.path = ⟨"/".intercalate ("" :: place)⟩ := by
  rw [Location.path, String.intercalate_cons_of_ne_nil hne, String.empty_append]

theorem ofComponents_components (place : Location) :
    Path.ofComponents place.components = place.path := by
  cases place with
  | nil => rfl
  | cons s rest =>
    rw [path_eq_intercalate (List.cons_ne_nil _ _)]
    show (⟨"/".intercalate ((components (s :: rest)).map Path.Component.text)⟩ : Path) = _
    simp [components, Path.Component.text, Function.comp_def]

@[simp] theorem isAbsolute_path (place : Location) : place.path.isAbsolute = true := by
  simp [Path.isAbsolute, Location.path]

theorem Proper.parts_path (h : place.Proper) (hne : place ≠ []) :
    place.path.parts = "" :: place := by
  rw [path_eq_intercalate hne]
  refine Path.parts_intercalate ?_ (List.cons_ne_nil _ _)
  rintro s hs
  obtain rfl | hs := List.mem_cons.mp hs
  · simp
  · exact (h s hs).1

/-- The path of a location leads there from the root. -/
theorem Proper.foldl_step_parts (h : place.Proper) :
    place.path.parts.foldl Location.step [] = place := by
  by_cases hne : place = []
  · subst hne
    decide
  · rw [h.parts_path hne]
    exact h.foldl_step_self []

theorem Proper.filterMap_component? (h : place.Proper) :
    place.filterMap Path.component? = place.map .name := by
  induction place with
  | nil => rfl
  | cons s rest ih =>
    rw [List.filterMap_cons_some (h s (by simp)).2, List.map_cons, ih]
    exact fun other hother => h other (List.mem_cons_of_mem _ hother)

theorem Proper.components_path (h : place.Proper) : place.path.components = place.components := by
  by_cases hne : place = []
  · subst hne
    decide
  · simp [Path.components, h.parts_path hne, Path.firstComponent?, components,
      h.filterMap_component?]

end Location

namespace Path

variable {dir p : Path} {place : Location}

theorem parts_of_isAbsolute (h : p.isAbsolute = true) : ∃ rest, p.parts = "" :: rest := by
  cases hp : p.text.toList with
  | nil => simp [isAbsolute, hp] at h
  | cons c rest =>
    obtain rfl : c = '/' := by simpa [isAbsolute, hp] using h
    exact ⟨(split rest).map String.ofList, by simp [parts, hp, split]⟩

/-- The normal form of an absolute path is the path of the location that its parts lead to. -/
theorem normalize_of_isAbsolute (h : p.isAbsolute = true) :
    p.normalize = (p.parts.foldl Location.step []).path := by
  obtain ⟨rest, hparts⟩ := parts_of_isAbsolute h
  have hwalk := Location.walk_components [] rest
  have hcomponents : p.components = .root :: rest.filterMap component? := by
    simp [components, hparts, firstComponent?, h]
  rw [normalize, hcomponents, hparts]
  show ofComponents ((rest.filterMap component?).foldl walk [.root]).reverse = _
  rw [show [Component.root] = (Location.components []).reverse from rfl, hwalk,
    List.reverse_reverse, Location.ofComponents_components]
  rfl

/-- A path spelled in the one way that normal absolute paths are. -/
def Canonical (p : Path) : Prop :=
  ∃ place : Location, place.Proper ∧ p = place.path

theorem canonical_normalize (h : p.isAbsolute = true) : p.normalize.Canonical :=
  ⟨_, Location.proper_root.foldl_step fun _ => not_mem_of_mem_parts, normalize_of_isAbsolute h⟩

namespace Canonical

theorem isAbsolute (h : p.Canonical) : p.isAbsolute = true := by
  obtain ⟨place, -, rfl⟩ := h
  exact place.isAbsolute_path

theorem normalize (h : p.Canonical) : p.normalize = p := by
  obtain ⟨place, hplace, rfl⟩ := h
  rw [normalize_of_isAbsolute place.isAbsolute_path, hplace.foldl_step_parts]

end Canonical

theorem join_of_isAbsolute (dir : Path) (h : p.isAbsolute = true) : dir.join p = p := by
  simp [join, h]

theorem isAbsolute_join (h : dir.isAbsolute = true) (p : Path) :
    (dir.join p).isAbsolute = true := by
  have hdir : dir.text.toList.head? = some '/' := by simpa [isAbsolute] using h
  have hne : dir.text ≠ "" := by
    rintro hempty
    simp [hempty] at hdir
  unfold join
  split
  · assumption
  · split <;> simp [isAbsolute, hdir]

end Path

namespace FileSystem

variable {fs : FileSystem} {p : Path} {place : Location}

theorem isAbsolute_of_workingPath {working : Path} (h : fs.workingPath = some working) :
    working.isAbsolute = true := by
  unfold workingPath at h
  split at h
  · obtain rfl := Option.some.inj h
    exact fs.working.place.isAbsolute_path
  · contradiction

/-- Seen from the directory, the reference has an absolute path: one of the two is absolute, or
there is a working directory to see them from. -/
def Anchors (fs : FileSystem) (dir : Path) (reference : String) : Prop :=
  fs.workingPath.isSome = true ∨ dir.isAbsolute = true ∨ Path.isAbsolute ⟨reference⟩ = true

instance (fs : FileSystem) (dir : Path) (reference : String) :
    Decidable (fs.Anchors dir reference) :=
  inferInstanceAs (Decidable (_ ∨ _))

/-- The path that a reference leads to from a directory, with no suffix behind it. -/
def destination (fs : FileSystem) (dir : Path) (reference : String) : Path :=
  ((Path.absolute fs.workingPath dir).join ⟨reference⟩).normalize

theorem canonical_destination {dir : Path} {reference : String} (h : fs.Anchors dir reference) :
    (fs.destination dir reference).Canonical := by
  cases hreference : Path.isAbsolute ⟨reference⟩ with
  | true =>
    rw [destination, Path.join_of_isAbsolute _ hreference]
    exact Path.canonical_normalize hreference
  | false =>
    refine Path.canonical_normalize (Path.isAbsolute_join ?_ _)
    cases hworking : fs.workingPath with
    | some working =>
      have hjoin := Path.isAbsolute_join (isAbsolute_of_workingPath hworking) dir
      exact (Path.canonical_normalize hjoin).isAbsolute
    | none =>
      have hdir : dir.isAbsolute = true := by simpa [Anchors, hworking, hreference] using h
      exact (Path.canonical_normalize hdir).isAbsolute

theorem eq_step_of_enter {part : String} {next : Location}
    (h : fs.enter place part = .ok next) : next = place.step part := by
  unfold enter at h
  split at h
  · contradiction
  · contradiction
  · split at h
    · contradiction
    · exact (Except.ok.inj h).symm

theorem eq_foldl_of_foldlM {parts : List String} {found : Location}
    (h : parts.foldlM fs.enter place = .ok found) : found = parts.foldl Location.step place := by
  induction parts generalizing place with
  | nil => exact (Except.ok.inj h).symm
  | cons part rest ih =>
    rw [List.foldlM_cons] at h
    cases hp : fs.enter place part with
    | error fault => rw [hp] at h; contradiction
    | ok next =>
      rw [hp] at h
      rw [List.foldl_cons, ← eq_step_of_enter hp]
      exact ih h

theorem exists_way_of_locate (h : fs.locate p = .ok place) : ∃ parts, fs.way p = .ok parts ∧
    parts.foldlM fs.enter (fs.start p) = .ok place := by
  unfold locate at h
  split at h
  · contradiction
  · split at h
    · contradiction
    · split at h
      · contradiction
      · cases hway : fs.way p with
        | error fault =>
          rw [hway] at h
          contradiction
        | ok parts =>
          rw [hway] at h
          exact ⟨parts, rfl, h⟩

/-- Where an absolute path leads, its parts lead. -/
theorem eq_of_locate (habsolute : p.isAbsolute = true) (h : fs.locate p = .ok place) :
    place = p.parts.foldl Location.step [] := by
  obtain ⟨parts, hway, hparts⟩ := exists_way_of_locate h
  rw [way, if_pos habsolute] at hway
  obtain rfl := Except.ok.inj hway
  rw [start, if_pos habsolute] at hparts
  exact eq_foldl_of_foldlM hparts

theorem eq_of_locate_path {found : Location} (h : place.Proper)
    (hfound : fs.locate place.path = .ok found) : found = place := by
  rw [eq_of_locate place.isAbsolute_path hfound, h.foldl_step_parts]

/-- No file is at the root. -/
theorem isFile_of_locate_root (h : fs.locate p = .ok []) : fs.isFile p = false := by
  simp [isFile, find, h, bind, Except.bind, entryAt?, pure, Except.pure]

theorem exists_locate_of_isFile (h : fs.isFile p = true) : ∃ place, fs.locate p = .ok place := by
  cases hp : fs.locate p with
  | ok place => exact ⟨place, rfl⟩
  | error fault => simp [isFile, find, hp, bind, Except.bind] at h

end FileSystem

namespace Path

/-- A name stays one with more behind it. -/
theorem component?_append {part : String} (h : component? part = some (.name part))
    (suffix : String) : component? (part ++ suffix) = some (.name (part ++ suffix)) := by
  simp only [component?_eq_name, ne_eq, ← String.toList_inj, String.toList_append] at h ⊢
  obtain ⟨hempty, hdot, hup⟩ := h
  match hp : part.toList with
  | [] => simp [hp] at hempty
  | [c] => simp_all
  | c :: d :: rest => simp_all

end Path

/-- The last name of a location may get a suffix. -/
theorem Location.Proper.concat_append {front : Location} {last suffix : String}
    (h : Location.Proper (front ++ [last])) (hsuffix : '/' ∉ suffix.toList) :
    Location.Proper (front ++ [last ++ suffix]) := by
  intro s hs
  obtain hs | rfl : s ∈ front ∨ s = last ++ suffix := by simpa using hs
  · exact h s (by simp [hs])
  · obtain ⟨hlast, hname⟩ := h last (by simp)
    exact ⟨by simp [hlast, hsuffix], Path.component?_append hname suffix⟩

namespace Path

variable {fs : FileSystem} {p : Path} {suffix : String}

theorem Canonical.append_root (hsuffix : '/' ∉ suffix.toList)
    (hfile : fs.isFile ⟨"/" ++ suffix⟩ = true) : Canonical ⟨"/" ++ suffix⟩ := by
  have hparts : parts ⟨"/" ++ suffix⟩ = ["", suffix] := by
    have htext : "/" ++ suffix = "/".intercalate ["", suffix] := by simp
    rw [htext]
    exact parts_intercalate (by simpa using hsuffix) (List.cons_ne_nil _ _)
  refine ⟨[suffix], ?_, ?_⟩
  · obtain ⟨place, hplace⟩ := FileSystem.exists_locate_of_isFile hfile
    have habsolute : Path.isAbsolute ⟨"/" ++ suffix⟩ = true := by simp [Path.isAbsolute]
    have hstep := FileSystem.eq_of_locate habsolute hplace
    rw [hparts] at hstep
    by_cases hname : component? suffix = some (.name suffix)
    · simpa [Location.Proper] using ⟨hsuffix, hname⟩
    · -- A suffix that is no name leads back to the root.
      have hroot : place = [] := by
        rw [hstep]
        rw [component?_eq_name] at hname
        simp only [List.foldl_cons, List.foldl_nil, Location.step]
        grind
      rw [hroot] at hplace
      rw [FileSystem.isFile_of_locate_root hplace] at hfile
      contradiction
  · simp [Location.path]

theorem append_intercalate (front : List String) (last suffix : String) :
    append ⟨"/".intercalate (front ++ [last])⟩ suffix =
      ⟨"/".intercalate (front ++ [last ++ suffix])⟩ := by
  by_cases hfront : front = []
  · simp [append, hfront]
  · rw [append, String.intercalate_append_of_ne_nil hfront (by simp),
      String.intercalate_append_of_ne_nil hfront (by simp)]
    simp [String.append_assoc]

theorem append_path (front : Location) (last suffix : String) :
    (Location.path (front ++ [last])).append suffix =
      Location.path (front ++ [last ++ suffix]) := by
  have h := congrArg text (append_intercalate front last suffix)
  simp only [append, Location.path, mk.injEq] at h ⊢
  rw [String.append_assoc, h]

/-- A file whose path is a canonical one with a suffix behind it. -/
theorem Canonical.append (h : p.Canonical) (hsuffix : '/' ∉ suffix.toList)
    (hfile : fs.isFile (p.append suffix) = true) : (p.append suffix).Canonical := by
  obtain ⟨place, hplace, rfl⟩ := h
  obtain rfl | ⟨front, last, rfl⟩ := List.eq_nil_or_concat place
  · have htext : Path.append (Location.path []) suffix = ⟨"/" ++ suffix⟩ := by
      simp [Path.append, Location.path]
    rw [htext] at hfile ⊢
    exact append_root hsuffix hfile
  · rw [List.concat_eq_append] at hplace hfile ⊢
    exact ⟨_, hplace.concat_append hsuffix, append_path ..⟩

end Path

/-! ### Resolving -/

variable {fs : FileSystem} {p : Path} {reference : String} {dir : Path} {suffixes : List String}

theorem mem_candidates_of_resolve (h : resolve fs reference dir suffixes = .ok p) :
    p ∈ candidates (Path.absolute fs.workingPath dir) reference suffixes ∧ fs.isFile p = true := by
  unfold resolve at h
  dsimp only at h
  split at h
  · rename_i path hfind
    obtain rfl := Except.ok.inj h
    exact ⟨List.mem_of_find?_eq_some hfind, List.find?_some hfind⟩
  · contradiction

theorem canonical_of_resolve (hsuffixes : ∀ s ∈ suffixes, '/' ∉ s.toList)
    (hanchors : fs.Anchors dir reference) (h : resolve fs reference dir suffixes = .ok p) :
    p.Canonical := by
  obtain ⟨hmem, hfile⟩ := mem_candidates_of_resolve h
  have hbase := FileSystem.canonical_destination hanchors
  obtain rfl | hmem := List.mem_cons.mp hmem
  · exact hbase
  · obtain ⟨suffix, hsuffix, rfl⟩ := List.mem_map.mp hmem
    exact hbase.append (hsuffixes suffix hsuffix) hfile

end ModuleLoader
