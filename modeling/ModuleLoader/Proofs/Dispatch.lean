import ModuleLoader.Proofs.Climbs
import ModuleLoader.Proofs.Refusals
import ModuleLoader.Proofs.Registrations

/-! Files that were found through a suffix. Resolving puts a suffix behind the text of a whole path,
and dispatching looks for one at the end of a file's name. The two agree: a file that a reference
came to through a suffix has a name that this suffix properly ends, so there is a strategy for it,
under that suffix or a longer one. -/
namespace ModuleLoader

open Script

theorem Location.Proper.fileName?_path {front : Location} {last : String}
    (h : Location.Proper (front ++ [last])) :
    (Location.path (front ++ [last])).fileName? = some last := by
  have hlast : (Location.components (front ++ [last])).getLast? = some (.name last) := by
    rw [Location.components, List.map_append, ← List.cons_append]
    exact List.getLast?_concat
  rw [Path.fileName?, h.components_path, hlast]

namespace FileSystem

variable {fs : FileSystem} {dir : Path} {reference : String}

/-- Unless it is the root, a canonical path has a last name. -/
theorem exists_of_canonical {p : Path} (h : p.Canonical) (hroot : p ≠ ⟨"/"⟩) :
    ∃ front last, Location.Proper (front ++ [last]) ∧ p = Location.path (front ++ [last]) := by
  obtain ⟨place, hplace, rfl⟩ := h
  obtain rfl | ⟨front, last, rfl⟩ := List.eq_nil_or_concat place
  · exact absurd rfl hroot
  · rw [List.concat_eq_append] at hplace ⊢
    exact ⟨front, last, hplace, rfl⟩

/-- Whoever is in a removed directory and takes one part of a path is in a directory again, if
anywhere. -/
theorem eq_of_leave_singleton {n : Nat} {part : String} {parts : List String}
    (h : leave (n + 1) [part] = .ok parts) : parts = [""] := by
  rw [leave] at h
  split at h
  · contradiction
  · split at h
    · cases n with
      | zero => exact (Except.ok.inj h).symm
      | succ n => contradiction
    · contradiction

theorem eq_of_enter_empty {place next : Location} (h : fs.enter place "" = .ok next) :
    next = place ∧ fs.entryAt? place = some .directory := by
  have hnext := eq_step_of_enter h
  unfold enter at h
  split at h
  · contradiction
  · contradiction
  · rename_i hentry
    exact ⟨hnext, hentry⟩

theorem exists_removed (h : fs.workingPath = none) : ∃ n, fs.working.removed = n + 1 := by
  refine Nat.exists_eq_succ_of_ne_zero fun hzero => ?_
  rw [workingPath, if_pos hzero] at h
  contradiction

/-- Seen from a removed directory, no file has a path without slashes. -/
theorem isFile_of_slashless {p : Path} (h : fs.workingPath = none) (hp : '/' ∉ p.text.toList) :
    fs.isFile p = false := by
  have hrelative : p.isAbsolute = false := by
    by_contra habsolute
    have hhead : p.text.toList.head? = some '/' := by simpa [Path.isAbsolute] using habsolute
    exact hp (List.mem_of_mem_head? hhead)
  have hparts : p.parts = [p.text] := by
    have htexts : ∀ s ∈ [p.text], '/' ∉ s.toList := List.forall_mem_singleton.mpr hp
    simpa using Path.parts_intercalate htexts (List.cons_ne_nil _ _)
  cases hlocate : fs.locate p with
  | error fault => simp [isFile, find, hlocate, bind, Except.bind]
  | ok place =>
    obtain ⟨n, hn⟩ := exists_removed h
    obtain ⟨parts, hway, henter⟩ := exists_way_of_locate hlocate
    rw [way, if_neg (by simp [hrelative]), hn, hparts] at hway
    rw [eq_of_leave_singleton hway, List.foldlM_cons] at henter
    cases hnext : fs.enter (fs.start p) "" with
    | error fault =>
      rw [hnext] at henter
      contradiction
    | ok next =>
      rw [hnext] at henter
      obtain rfl := Except.ok.inj henter
      obtain ⟨rfl, hentry⟩ := eq_of_enter_empty hnext
      simp [isFile, find, hlocate, hentry, bind, Except.bind, pure, Except.pure]

/-- The last component of a path that is spelled by steps up and names. -/
theorem fileName?_intercalate {front : List String} {last : String}
    (hfront : ∀ s ∈ front, '/' ∉ s.toList ∧ s ≠ "" ∧ s ≠ ".") (hslash : '/' ∉ last.toList)
    (hname : Path.component? last = some (.name last)) :
    Path.fileName? ⟨"/".intercalate (front ++ [last])⟩ = some last := by
  have htexts : ∀ s ∈ front ++ [last], '/' ∉ s.toList ∧ s ≠ "" ∧ s ≠ "." := by
    intro s hs
    obtain hs | hs := List.mem_append.mp hs
    · exact hfront s hs
    · obtain rfl := List.mem_singleton.mp hs
      obtain ⟨hempty, hdot, -⟩ := Path.component?_eq_name.mp hname
      exact ⟨hslash, hempty, hdot⟩
  rw [Path.fileName?, Path.components_intercalate htexts, List.filterMap_append,
    List.filterMap_cons_some hname, List.filterMap_nil, List.getLast?_concat]

/-- Without a working directory, a destination that is not absolute is the normal form of a relative
path. -/
theorem exists_of_not_anchors (h : ¬fs.Anchors dir reference) : fs.workingPath = none ∧
    ∃ q : Path, q.isAbsolute = false ∧ fs.destination dir reference = q.normalize := by
  simp only [Anchors, not_or, Bool.not_eq_true] at h
  obtain ⟨hworking, hdir, hreference⟩ := h
  have hnone : fs.workingPath = none := by simpa using hworking
  refine ⟨hnone, dir.normalize.join ⟨reference⟩, ?_, ?_⟩
  · rw [Location.isAbsolute_join_eq, Path.isAbsolute_normalize hdir, hreference, Bool.or_false]
  · rw [destination, hnone]
    rfl

/-- A reference resolves to a path, which is that of its destination with one of the suffixes behind
it. -/
structure FindsThrough (fs : FileSystem) (suffixes : List String) (dir : Path) (reference : String)
    (suffix : String) (p : Path) : Prop where
  resolves : resolve fs reference dir suffixes = .ok p
  mem : suffix ∈ suffixes
  path : p = (fs.destination dir reference).append suffix

namespace FindsThrough

variable {suffixes : List String} {suffix : String} {p : Path}

theorem fileName?_of_anchors (h : fs.FindsThrough suffixes dir reference suffix p)
    (hsuffix : '/' ∉ suffix.toList) (hroot : fs.destination dir reference ≠ ⟨"/"⟩)
    (hanchors : fs.Anchors dir reference) :
    ∃ name, p.fileName? = some name ∧ Strategies.ProperSuffix suffix name := by
  obtain ⟨front, last, hproper, hdestination⟩ :=
    exists_of_canonical (canonical_destination hanchors) hroot
  have hlast : last ≠ "" := by
    obtain ⟨-, hname⟩ := hproper last (by simp)
    exact (Path.component?_eq_name.mp hname).1
  refine ⟨last ++ suffix, ?_, Strategies.properSuffix_append hlast⟩
  rw [h.path, hdestination, Path.append_path]
  exact (hproper.concat_append hsuffix).fileName?_path

theorem fileName?_of_not_anchors (h : fs.FindsThrough suffixes dir reference suffix p)
    (hsuffix : '/' ∉ suffix.toList) (hanchors : ¬fs.Anchors dir reference) :
    ∃ name, p.fileName? = some name ∧ Strategies.ProperSuffix suffix name := by
  obtain ⟨hworking, q, hq, hdestination⟩ := exists_of_not_anchors hanchors
  rw [Path.normalize_of_relative hq, Path.normalParts] at hdestination
  obtain hempty | ⟨front, last, hlast⟩ := List.eq_nil_or_concat (Location.follow [] q)
  · -- With no name in it, the destination and a suffix make up one part, and that is no file.
    have hslash : '/' ∉ p.text.toList := by
      rw [h.path, hdestination, hempty, List.append_nil]
      obtain hclimb | hclimb : q.climb % 2 = 0 ∨ q.climb % 2 = 1 := by omega
      · simpa [Path.append, hclimb] using hsuffix
      · simpa [Path.append, hclimb] using hsuffix
    have hfile := (mem_candidates_of_resolve h.resolves).2
    rw [isFile_of_slashless hworking hslash] at hfile
    contradiction
  · rw [List.concat_eq_append] at hlast
    obtain ⟨hslash, hname⟩ := (Location.proper_root.follow q) last (by simp [hlast])
    have hfront : ∀ s ∈ List.replicate (q.climb % 2) ".." ++ front,
        '/' ∉ s.toList ∧ s ≠ "" ∧ s ≠ "." := by
      intro s hs
      refine Path.of_mem_normalParts (p := q) ?_
      rw [Path.normalParts, hlast, ← List.append_assoc]
      exact List.mem_append_left _ hs
    refine ⟨last ++ suffix, ?_,
      Strategies.properSuffix_append (Path.component?_eq_name.mp hname).1⟩
    rw [h.path, hdestination, hlast, ← List.append_assoc, Path.append_intercalate]
    exact fileName?_intercalate hfront (by simp [hslash, hsuffix])
      (Path.component?_append hname suffix)

/-- The name of a file that was found through a suffix properly ends in it. -/
theorem fileName? (h : fs.FindsThrough suffixes dir reference suffix p)
    (hsuffixes : ∀ s ∈ suffixes, '/' ∉ s.toList) (hroot : fs.destination dir reference ≠ ⟨"/"⟩) :
    ∃ name, p.fileName? = some name ∧ Strategies.ProperSuffix suffix name := by
  have hsuffix := hsuffixes suffix h.mem
  by_cases hanchors : fs.Anchors dir reference
  · exact h.fileName?_of_anchors hsuffix hroot hanchors
  · exact h.fileName?_of_not_anchors hsuffix hanchors

end FindsThrough

end FileSystem

namespace Strategies

variable {σ : Type} {t : Strategies σ} {name suffix : String}

end Strategies

namespace Loader

variable {l : Loader} {id : Path}

end Loader

namespace Moment

variable {m m' : Machine} {n : Nat} {reference : String} {dir id : Path}

end Moment

end ModuleLoader
