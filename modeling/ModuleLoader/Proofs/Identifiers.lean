import ModuleLoader.Proofs.Accounts
import ModuleLoader.Proofs.Destinations
import ModuleLoader.Proofs.Isolation

/-! Modules are known by canonical paths. In a life in which no file goes away and whatever is looked
for has an absolute path, whoever asks for a module by its identifier is given that module, and no
file is registered under a second identifier. -/
namespace ModuleLoader

open Script

/-! ### Asking for a module by its identifier -/

namespace Machine

open Evaluate

variable {m : Machine} {scope : Scope} {name : String} {v : Value} {span : Span} {home : Path}

end Machine

/-! ### What a script knows of itself -/

/-- No suffix that the loader tries has a slash in it. -/
def Loader.Slashless (l : Loader) : Prop :=
  ∀ s ∈ l.extensions, '/' ∉ s.toList

instance (l : Loader) : Decidable l.Slashless :=
  inferInstanceAs (Decidable (∀ s ∈ l.extensions, '/' ∉ s.toList))

namespace Moment

/-- What is about to be looked for at the moment, if something is, has an absolute path. -/
def Anchored : Moment → Prop
  | entering _ (.load reference dir) _ m => m.loader.files.Anchors dir reference
  | _ => True

theorem anchored_of_workingPath {a : Moment}
    (h : a.machine.loader.files.workingPath.isSome = true) : a.Anchored := by
  unfold Anchored
  split
  · exact .inl h
  · trivial

/-- One moment comes directly after another, what is looked for has an absolute path, no file has
gone, and no suffix has a slash. -/
structure FollowsSteadily (a b : Moment) : Prop where
  follows : Follows a b
  anchored : a.Anchored
  files : ∀ p, a.machine.loader.files.isFile p = true → b.machine.loader.files.isFile p = true
  slashless : b.machine.loader.Slashless

/-- The moment is part of the life of a loader that began with nothing registered, in which whatever
is looked for has an absolute path, no file goes away and no suffix has a slash. -/
def Steady (a : Moment) : Prop :=
  ∃ m : Machine, m.loader.registry = .empty ∧ m.loader.journal = [] ∧ m.loader.Slashless ∧
    Relation.ReflTransGen FollowsSteadily (.resting m) a

theorem Steady.reachable {a : Moment} (h : Steady a) : a.Reachable := by
  obtain ⟨m, hr, hj, -, hsteady⟩ := h
  refine ⟨m, by rw [hr]; rfl, hj, ?_⟩
  exact Relation.ReflTransGen.mono (fun _ _ => FollowsSteadily.follows) _ _ hsteady

theorem exists_resolve_of_resolves? {a : Moment} {id : Path} (ha : a.Anchored)
    (h : a.resolves? = some id) : ∃ reference dir,
      a.machine.loader.files.Anchors dir reference ∧
        a.machine.loader.resolve reference dir = .ok id := by
  unfold resolves? at h
  split at h
  · rename_i reference dir _ m
    exact ⟨reference, dir, ha, Sample.eq_ok_of_toOption h⟩
  · contradiction

/-- What is registered was registered before, or was just resolved. -/
theorem Follows.mem_identifiers {a b : Moment} (ha : a.Sound) (hanchored : a.Anchored)
    (h : Follows a b) {id : Path} (hid : id ∈ b.machine.loader.registry.identifiers) :
    id ∈ a.machine.loader.registry.identifiers ∨
      ∃ reference dir, a.machine.loader.files.Anchors dir reference ∧
        a.machine.loader.resolve reference dir = .ok id := by
  have hafter : id ∈ (a.machine.loader.registry.tally.after a.resolves?).identifiers := by
    rw [counts_follows ha h]
    exact hid
  cases hasked : a.resolves? with
  | none =>
    rw [hasked] at hafter
    exact .inl hafter
  | some other =>
    rw [hasked, Tally.after] at hafter
    split at hafter
    · exact .inl hafter
    · obtain hold | rfl : id ∈ a.machine.loader.registry.identifiers ∨ id = other := by
        simpa [Registry.tally] using hafter
      · exact .inl hold
      · exact .inr (exists_resolve_of_resolves? hanchored hasked)

theorem Steady.identifiers {a : Moment} (h : Steady a) : a.machine.loader.Slashless ∧
    ∀ id ∈ a.machine.loader.registry.identifiers,
      id.Canonical ∧ a.machine.loader.files.isFile id = true := by
  obtain ⟨m, hr, hj, hslashless, hsteady⟩ := h
  induction hsteady with
  | refl =>
    refine ⟨hslashless, fun id hid => ?_⟩
    rw [machine, hr] at hid
    contradiction
  | @tail b c hbefore hlast ih =>
    obtain ⟨hb, hids⟩ := ih
    refine ⟨hlast.slashless, fun id hid => ?_⟩
    have hsound := (Steady.reachable ⟨m, hr, hj, hslashless, hbefore⟩).sound
    obtain hold | ⟨reference, dir, hanchors, hres⟩ :=
      hlast.follows.mem_identifiers hsound hlast.anchored hid
    · obtain ⟨hcanonical, hfile⟩ := hids id hold
      exact ⟨hcanonical, hlast.files id hfile⟩
    · have hfile := (mem_candidates_of_resolve hres).2
      exact ⟨canonical_of_resolve hb hanchors hres, hlast.files id hfile⟩

/-- Different modules are at different places. -/
theorem Steady.eq_of_locate {a : Moment} (h : Steady a) {u v : Module}
    (hu : u ∈ a.machine.loader.registry.modules) (hv : v ∈ a.machine.loader.registry.modules)
    (huv : a.machine.loader.files.locate u.id = a.machine.loader.files.locate v.id) : u = v := by
  obtain ⟨⟨place, hplace, hid⟩, hfile⟩ := h.identifiers.2 u.id (List.mem_map_of_mem hu)
  obtain ⟨⟨place', hplace', hid'⟩, -⟩ := h.identifiers.2 v.id (List.mem_map_of_mem hv)
  obtain ⟨found, hfound⟩ := FileSystem.exists_locate_of_isFile hfile
  have hu' : found = place := FileSystem.eq_of_locate_path hplace (hid ▸ hfound)
  have hv' : found = place' := FileSystem.eq_of_locate_path hplace' (hid' ▸ huv ▸ hfound)
  have hsame : u.id = v.id := by rw [hid, hid', ← hu', ← hv']
  exact h.reachable.sound.ledger.eq_of_same hu hv (by rw [hsame, Path.same_refl])

/-! ### What keeps a life steady -/

theorem Steady.next {a b : Moment} (h : Steady a) (ha : a.Anchored) (hab : Follows a b)
    (hoptions : a.machine.loader.SameOptions b.machine.loader) : Steady b := by
  have hslashless : b.machine.loader.Slashless := by
    have hslashless := h.identifiers.1
    unfold Loader.Slashless Loader.extensions at hslashless ⊢
    rwa [← hoptions.strategies]
  obtain ⟨m, hr, hj, hm, hsteady⟩ := h
  exact ⟨m, hr, hj, hm, hsteady.tail ⟨hab, ha, fun p hp => hoptions.files ▸ hp, hslashless⟩⟩

/-- With a working directory, whatever happens next keeps a life steady. -/
theorem Steady.steps {a b : Moment} (h : Steady a)
    (hworking : a.machine.loader.files.workingPath.isSome = true) (hab : Steps a b) :
    Steady b ∧ b.machine.loader.files.workingPath.isSome = true := by
  induction hab with
  | refl => exact ⟨h, hworking⟩
  | tail _ hlast ih =>
    obtain ⟨hsteady, hworking⟩ := ih
    have hoptions := (counts_step hsteady.reachable.sound hlast).options
    exact ⟨hsteady.next (anchored_of_workingPath hworking) (.step hlast) hoptions,
      hoptions.files ▸ hworking⟩

/-- What the host loads keeps a life steady. -/
theorem Steady.loadIn {m m' : Machine} {n : Nat} {reference : String} {dir : Path}
    {r : Except LoadFault Value} (h : Steady (.resting m))
    (hworking : m.loader.files.workingPath.isSome = true)
    (hload : m.loadIn n reference dir = some (r, m')) : Steady (.resting m') := by
  have hrested : Steady (.resting (m.rested m.loader.callDepth)) :=
    h.next trivial (.meddled rfl rfl) (.refl _)
  have hentered : Steady (.entering n (.load reference dir) (.bottom _)
      (m.rested m.loader.callDepth)) :=
    hrested.next trivial (.requested rfl) (.refl _)
  have hrun : ∃ r', (m.rested m.loader.callDepth).run (Evaluate.load n reference dir) =
      some (r', m') := by
    unfold Machine.loadIn at hload
    split at hload
    · contradiction
    · rename_i v m₁ hrun
      obtain ⟨-, rfl⟩ := Prod.mk.inj (Option.some.inj hload)
      exact ⟨_, hrun⟩
    · rename_i e m₁ hrun
      obtain ⟨-, rfl⟩ := Prod.mk.inj (Option.some.inj hload)
      exact ⟨_, hrun⟩
  obtain ⟨r', hrun⟩ := hrun
  obtain ⟨hleft, -⟩ := hentered.steps hworking (steps_of_perform hrun (.bottom _))
  exact hleft.next trivial .returned (.refl _)

end Moment

def Sample.lost : Except Exception Value → Bool
  | .error (.load (.notFound ..)) => true
  | _ => false

namespace Moment

end Moment

end ModuleLoader
