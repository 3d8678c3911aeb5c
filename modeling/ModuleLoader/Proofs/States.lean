import ModuleLoader.Proofs.Life

/-! The states of modules. A module is loading as long as its loading is on the stack; then it is
loaded or failed, and remains so. -/
namespace ModuleLoader

open Script

namespace Moment

theorem Reachable.settled_of_resting {m : Machine} (h : Reachable (.resting m)) {u : Module}
    (hu : u ∈ m.loader.registry.modules) : u.state ≠ .loading := by
  have hl : m.loader.Ledger [] := h.sound.ledger
  intro hs
  have hmem : u ∈ m.loader.registry.modules.filter (fun u => u.state = .loading) :=
    List.mem_filter.mpr ⟨hu, decide_eq_true hs⟩
  rw [hl.loading] at hmem
  contradiction

/-- At every moment the modules that are loading are those whose loading is on the stack, in the
order of their requests. The journal has no ending of their loading, and one ending of the loading
of every other module, in the state that the module has; from then on the module does not change.
When a request of the host has ended, however it ended, no module is loading. -/
theorem loading_iff_on_stack {a : Moment} (h : a.Reachable) :
    a.machine.loader.registry.modules.filter (fun u => u.state = .loading) = a.loading.reverse ∧
    (∀ u ∈ a.machine.loader.registry.modules,
      a.machine.loader.endings u.id = if u.state = .loading then [] else [u.state]) ∧
    (∀ {b}, Leads a b → ∀ u ∈ a.machine.loader.registry.modules,
      ∃ u' ∈ b.machine.loader.registry.modules, u'.id = u.id ∧ u'.object = u.object ∧
        (u.state ≠ .loading → u' = u)) ∧
    (∀ {m}, a = .resting m →
      (∀ u ∈ m.loader.registry.modules, u.state ≠ .loading) ∧
      ∀ {n reference dir r m'}, m.loadIn n reference dir = some (r, m') →
        Leads a (.resting m') ∧ ∀ u ∈ m'.loader.registry.modules, u.state ≠ .loading) := by
  refine ⟨h.sound.ledger.loading, h.sound.ledger.endings, ?_, ?_⟩
  · intro b hab u hu
    obtain ⟨-, hprec⟩ := hab.sound h.sound
    exact hprec.kept u hu
  · rintro m rfl
    refine ⟨fun u hu => h.settled_of_resting hu, fun hload => ?_⟩
    obtain ⟨r', hleads, -⟩ := leads_of_loadIn hload
    replace hleads := hleads.tail .returned
    exact ⟨hleads, fun u hu => (h.leads hleads).settled_of_resting hu⟩

/-- One module is loaded and another has failed, after the first caught what the second threw. -/
theorem loading_iff_on_stack_sample : ∃ m, Reachable (.resting m) ∧
    m.loader.registry.modules.map Module.state = [.loaded, .failed] ∧
    ∀ u ∈ m.loader.registry.modules, m.loader.endings u.id = [u.state] := by
  obtain ⟨m, hm, hp⟩ := Sample.reachable_of_loaded 60 "./catches"
    (fun m => m.loader.registry.modules.map Module.state = [.loaded, .failed]) (by decide +kernel)
  obtain ⟨-, hendings, -, hrest⟩ := loading_iff_on_stack hm
  refine ⟨m, hm, of_decide_eq_true hp, fun u hu => ?_⟩
  exact (hendings u hu).trans (if_neg ((hrest rfl).1 u hu))

end Moment

end ModuleLoader
