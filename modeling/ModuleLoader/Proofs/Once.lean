import ModuleLoader.Proofs.Life

/-! A module is loaded at most once in the life of a loader, however requests are nested and
whatever comes of them. A request for a module that is registered gives what the module exposes at
that time. -/
namespace ModuleLoader

open Script

namespace Loader

theorem Precedes.started_suffix {l l' : Loader} (h : l.Precedes l') : l.started <:+ l'.started :=
  h.journal.filterMap _

theorem Precedes.find? {l l' : Loader} {active active' : List Module} (h : l.Precedes l')
    (hl : l.Ledger active) (hl' : l'.Ledger active') {id : Path} {u : Module}
    (hu : l.registry.find? id = some u) :
    ∃ u', l'.registry.find? id = some u' ∧ u'.id = u.id ∧ u'.object = u.object := by
  obtain ⟨hmem, hsame⟩ := hl.find?_iff.mp hu
  obtain ⟨u', hu', hid, hob, -⟩ := h.kept u hmem
  exact ⟨u', hl'.find?_iff.mpr ⟨hu', by rwa [hid]⟩, hid, hob⟩

end Loader

namespace Machine

variable {m : Machine} {reference : String} {dir id : Path} {u : Module}

/-- The machine that has handed out a registered module: the hit is counted, and the journal tells
of nothing else. -/
def handOut (m : Machine) (reference : String) (dir id : Path) : Machine :=
  { m with loader :=
    { m.loader with
      journal := .reused id :: .sought (m.loader.candidates reference dir) :: m.loader.journal
      registry := { m.loader.registry with hits := m.loader.registry.hits + 1 } } }

theorem run_load_hit (h : m.loader.resolve reference dir = .ok id)
    (hu : m.loader.registry.find? id = some u) (n : Nat) :
    m.run (Evaluate.load (n + 1) reference dir) =
      some (.ok (u.exposed m.heap), m.handOut reference dir id) := by
  show m.run ((Plan.ofLoad reference dir).carryOut _) = _
  rw [Plan.run_carryOut, Plan.advance_ofLoad_hit h hu]
  rfl

theorem loadIn_hit (h : m.loader.resolve reference dir = .ok id)
    (hu : m.loader.registry.find? id = some u) (n : Nat) :
    m.loadIn (n + 1) reference dir = some (.ok (u.exposed m.heap),
      (m.rested m.loader.callDepth).handOut reference dir id) := by
  have hrun := run_load_hit (m := m.rested m.loader.callDepth) h hu n
  unfold loadIn
  rw [hrun]
  rfl

theorem advance_require_string {home : Path} (hd : m.loader.dropped = false) (args : List Value) :
    (Plan.require home (.string reference :: args)).advance m =
      some (.asked (.load reference home.directory) (Plan.passing .done), m) := by
  show (Plan.bind (.act Run.machine .done) _).advance m = _
  simp only [Plan.bind, Plan.advance, run_machine, hd, Bool.false_eq_true, if_false]
  rfl

theorem run_require_hit {home : Path} (h : m.loader.resolve reference home.directory = .ok id)
    (hu : m.loader.registry.find? id = some u) (hd : m.loader.dropped = false) (n : Nat)
    (this : Value) (args : List Value) :
    m.run (Evaluate.call (n + 2) (.native (.require home)) this (.string reference :: args)) =
      some (.ok (u.exposed m.heap), m.handOut reference home.directory id) := by
  show m.run ((Plan.require home (.string reference :: args)).carryOut _) = _
  rw [Plan.run_carryOut, advance_require_string hd]
  show (m.run (Evaluate.load (n + 1) reference home.directory)).bind _ = _
  rw [run_load_hit h hu]
  rfl

end Machine

namespace Moment

/-- A strategy sets to work on a module that is registered and being loaded. -/
theorem Reachable.find?_of_start {n : Nat} {u : Module} {s : Strategy} {stack : Stack (.start u s)}
    {m : Machine} (h : Reachable (.entering n (.start u s) stack m)) :
    m.loader.registry.find? u.id = some u ∧ u.state = .loading := by
  obtain ⟨hl, hs, -⟩ := h.sound
  have hu : u ∈ stack.loading := by
    cases stack with
    | bottom t => cases hs
    | frame k t next below =>
      obtain ⟨hw, -⟩ := hs
      cases hw with
      | plain _ hstart _ => cases hstart
      | module => exact List.mem_cons_self ..
  obtain ⟨hmem, hstate⟩ := hl.mem_of_active hu
  exact ⟨hl.find?_iff.mpr ⟨hmem, Path.same_refl _⟩, hstate⟩

/-- No strategy sets to work on the module of one that did before. -/
theorem Reachable.start_not_same {n n' : Nat} {u u' : Module} {s s' : Strategy}
    {stack : Stack (.start u s)} {stack' : Stack (.start u' s')} {m m' : Machine}
    (h : Reachable (.entering n (.start u s) stack m))
    (hlater : Relation.TransGen Follows (.entering n (.start u s) stack m)
      (.entering n' (.start u' s') stack' m')) : u'.id.same u.id = false := by
  obtain ⟨c, hbefore, hlast⟩ := Relation.TransGen.tail'_iff.mp hlater
  obtain ⟨hc, hprec⟩ := Leads.sound hbefore h.sound
  have hcont := continues_follows hc hlast
  have hstarted : m'.loader.started = u'.id :: c.machine.loader.started :=
    hcont.started _ _ _ _ _ rfl
  have hu : u.id ∈ c.machine.loader.started := by
    obtain ⟨-, -, hhead⟩ := h.sound
    exact hprec.started_suffix.subset (List.mem_of_mem_head? (hhead u s rfl))
  have hpair := hcont.sound.ledger.startedOnce
  rw [machine, hstarted, List.pairwise_cons] at hpair
  exact hpair.1 _ hu

/-- At most one loading for each identifier, in the whole life of a loader. The module that a
strategy sets to work on is registered before, and no strategy sets to work on its identifier again,
nor did one before. What is registered under an identifier remains, and whoever asks for it is given
what the module exposes, whatever state it is in; the loader only counts the hit. -/
theorem loaded_at_most_once {a : Moment} (h : a.Reachable) :
    a.machine.loader.started.Pairwise (fun p q => p.same q = false) ∧
    (∀ {n u s stack m}, a = .entering n (.start u s) stack m →
      m.loader.registry.find? u.id = some u ∧ m.loader.started.head? = some u.id ∧
      ∀ {n' u' s' stack' m'},
        Relation.TransGen Follows a (.entering n' (.start u' s') stack' m') →
          u'.id.same u.id = false) ∧
    ∀ {id u}, a.machine.loader.registry.find? id = some u →
      (∀ {b}, Leads a b → ∃ u', b.machine.loader.registry.find? id = some u' ∧
        u'.id = u.id ∧ u'.object = u.object) ∧
      ∀ {reference dir}, a.machine.loader.resolve reference dir = .ok id →
        (∀ n, a.machine.loadIn (n + 1) reference dir =
          some (.ok (u.exposed a.machine.heap),
            (a.machine.rested a.machine.loader.callDepth).handOut reference dir id)) ∧
        (∀ n, a.machine.run (Evaluate.load (n + 1) reference dir) =
          some (.ok (u.exposed a.machine.heap), a.machine.handOut reference dir id)) ∧
        ∀ {home}, home.directory = dir → a.machine.loader.dropped = false → ∀ n this args,
          a.machine.run (Evaluate.call (n + 2) (.native (.require home)) this
              (.string reference :: args)) =
            some (.ok (u.exposed a.machine.heap), a.machine.handOut reference dir id) := by
  refine ⟨h.sound.ledger.startedOnce, ?_, ?_⟩
  · rintro n u s stack m rfl
    obtain ⟨-, -, hhead⟩ := h.sound
    exact ⟨h.find?_of_start.1, hhead u s rfl, h.start_not_same⟩
  · intro id u hu
    constructor
    · intro b hab
      obtain ⟨hb, hprec⟩ := hab.sound h.sound
      exact hprec.find? h.sound.ledger hb.ledger hu
    · intro reference dir hres
      refine ⟨Machine.loadIn_hit hres hu, Machine.run_load_hit hres hu, ?_⟩
      rintro home rfl hd n this args
      exact Machine.run_require_hit hres hu hd n this args

theorem loaded_at_most_once_sample : ∃ m u, Reachable (.resting m) ∧ u.state = .failed ∧
    m.loader.registry.find? ⟨"/throws.js"⟩ = some u ∧
    m.loadIn 1 "./throws" ⟨"/"⟩ = some (.ok (u.exposed m.heap),
      (m.rested m.loader.callDepth).handOut "./throws" ⟨"/"⟩ ⟨"/throws.js"⟩) := by
  obtain ⟨m, hm, hp⟩ := Sample.reachable_of_loaded 60 "./throws" (fun m =>
    (m.loader.registry.find? ⟨"/throws.js"⟩).map Module.state = some .failed ∧
      (m.loader.resolve "./throws" ⟨"/"⟩).toOption = some ⟨"/throws.js"⟩) (by decide +kernel)
  obtain ⟨hfind, hres⟩ := of_decide_eq_true hp
  obtain ⟨u, hu, hstate⟩ := Option.map_eq_some_iff.mp hfind
  replace hres := Sample.eq_ok_of_toOption hres
  exact ⟨m, u, hm, hstate, hu, ((loaded_at_most_once hm).2.2 hu).2 hres |>.1 0⟩

end Moment

end ModuleLoader
