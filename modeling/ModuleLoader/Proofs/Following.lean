import ModuleLoader.Proofs.Canonical

/-! Where paths lead. A path leads from one location to another, part by part, and following a joined
path is following its two halves. The normal form of an absolute path tells where it leads. -/
namespace ModuleLoader

namespace Path

theorem split_append_slash (front rest : List Char) :
    split (front ++ '/' :: rest) = split front ++ split rest := by
  rw [split_eq_splitOn, split_eq_splitOn, split_eq_splitOn]
  exact List.splitOnP_append_cons _ _ (by simp)

end Path

namespace Location

variable {place : Location} {dir p : Path}

/-- Where a path leads from a location: each part is a step, and an absolute path starts over at
the root. -/
def follow (place : Location) (p : Path) : Location :=
  p.parts.foldl step (if p.isAbsolute then [] else place)

theorem follow_of_isAbsolute (h : p.isAbsolute = true) :
    place.follow p = p.parts.foldl step [] := by
  rw [follow, if_pos h]

theorem follow_of_relative (h : p.isAbsolute = false) :
    place.follow p = p.parts.foldl step place := by
  rw [follow, if_neg (by simp [h])]

theorem step_empty (place : Location) : place.step "" = place := by
  simp [step]

theorem follow_empty (place : Location) : place.follow ⟨""⟩ = place :=
  place.step_empty

/-- A relative path is followed from where its directory leads. -/
theorem foldl_parts_join (place : Location) (h : p.isAbsolute = false) (hdir : dir.text ≠ "") :
    (dir.join p).parts.foldl step place = p.parts.foldl step (dir.parts.foldl step place) := by
  rw [Path.join, if_neg (by simp [h])]
  by_cases hslash : dir.text.toList.getLast? = some '/'
  · obtain ⟨front, hfront⟩ := List.getLast?_eq_some_iff.mp hslash
    rw [if_pos (.inr hslash)]
    simp only [Path.parts, String.toList_append, hfront, List.append_assoc, List.singleton_append,
      Path.split_append_slash, List.map_append, List.foldl_append]
    exact congrArg (List.foldl step · _) (step_empty _).symm
  · rw [if_neg (by simp [hdir, hslash])]
    simp only [Path.parts, String.toList_append, show "/".toList = ['/'] from rfl,
      List.append_assoc, List.singleton_append, Path.split_append_slash, List.map_append,
      List.foldl_append]

theorem isAbsolute_join_of_ne (h : p.isAbsolute = false) (hdir : dir.text ≠ "") :
    (dir.join p).isAbsolute = dir.isAbsolute := by
  obtain ⟨c, rest, hcons⟩ : ∃ c rest, dir.text.toList = c :: rest :=
    List.exists_cons_of_ne_nil (by simpa using hdir)
  rw [Path.join, if_neg (by simp [h])]
  split <;> simp [Path.isAbsolute, hcons]

theorem isAbsolute_join_eq (dir p : Path) :
    (dir.join p).isAbsolute = (dir.isAbsolute || p.isAbsolute) := by
  cases h : p.isAbsolute with
  | true => rw [Path.join_of_isAbsolute dir h, h, Bool.or_true]
  | false =>
    rw [Bool.or_false]
    by_cases hdir : dir.text = ""
    · rw [Path.join, if_neg (by simp [h]), if_pos (.inl hdir)]
      simpa [Path.isAbsolute, hdir] using h
    · exact isAbsolute_join_of_ne h hdir

/-- To follow a joined path is to follow its directory and then the path. -/
theorem follow_join (place : Location) (dir p : Path) :
    place.follow (dir.join p) = (place.follow dir).follow p := by
  cases h : p.isAbsolute with
  | true => rw [Path.join_of_isAbsolute dir h, follow_of_isAbsolute h, follow_of_isAbsolute h]
  | false =>
    by_cases hdir : dir.text = ""
    · obtain rfl : dir = ⟨""⟩ := by cases dir; simpa using hdir
      rw [follow_empty]
      simp [Path.join, h]
    · rw [follow_of_relative h, follow, foldl_parts_join _ h hdir, isAbsolute_join_of_ne h hdir]
      rfl

theorem Proper.follow (h : place.Proper) (p : Path) : (place.follow p).Proper := by
  unfold Location.follow
  split
  · exact proper_root.foldl_step fun _ => Path.not_mem_of_mem_parts
  · exact h.foldl_step fun _ => Path.not_mem_of_mem_parts

theorem Proper.follow_path (h : place.Proper) (start : Location) :
    start.follow place.path = place := by
  rw [follow_of_isAbsolute place.isAbsolute_path, h.foldl_step_parts]

end Location

namespace Path

variable {dir p q : Path}

/-- The normal form of an absolute path is the path of the location it leads to. -/
theorem normalize_eq_path (h : p.isAbsolute = true) (start : Location) :
    p.normalize = (start.follow p).path := by
  rw [normalize_of_isAbsolute h, Location.follow_of_isAbsolute h]

theorem normalize_join (h : dir.isAbsolute = true) (p : Path) :
    (dir.join p).normalize = ((Location.follow [] dir).follow p).path := by
  rw [normalize_eq_path (isAbsolute_join h p) [], Location.follow_join]

/-- Canonical paths with the same components are spelled the same. -/
theorem Canonical.eq_of_same (hp : p.Canonical) (hq : q.Canonical) (h : p.same q = true) :
    p = q := by
  obtain ⟨place, hplace, rfl⟩ := hp
  obtain ⟨other, hother, rfl⟩ := hq
  have hcomponents := same_iff.mp h
  rw [hplace.components_path, hother.components_path] at hcomponents
  have hnames := (List.map_inj_right fun _ _ => Component.name.inj).mp (List.cons.inj hcomponents).2
  rw [hnames]

end Path

end ModuleLoader
