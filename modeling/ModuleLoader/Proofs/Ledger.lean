import ModuleLoader.Proofs.Acts

/-! The books of a loader: what registry and journal say together about the modules that are being
loaded. Each thing that a loader does keeps the books in order, and takes nothing back. -/
namespace ModuleLoader

namespace Event

def started? : Event → Option Path
  | started id _ => some id
  | _ => none

/-- The module of which the loading came to its end, and how it ended. -/
def settled? : Event → Option (Path × ModuleState)
  | settled id state => some (id, state)
  | _ => none

end Event

namespace Loader

/-- The modules that strategies set to work on, the latest first. -/
def started (l : Loader) : List Path :=
  l.journal.filterMap Event.started?

def settled (l : Loader) : List (Path × ModuleState) :=
  l.journal.filterMap Event.settled?

def endings (l : Loader) (id : Path) : List ModuleState :=
  (l.settled.filter fun e => e.1.same id).map Prod.snd

/-- Nothing is taken back from one loader to the other: each module stays what it is, at most its
loading comes to its end, and the journal goes on. -/
structure Precedes (l l' : Loader) : Prop where
  kept : ∀ u ∈ l.registry.modules, ∃ u' ∈ l'.registry.modules,
    u'.id = u.id ∧ u'.object = u.object ∧ (u.state ≠ .loading → u' = u)
  journal : l.journal <:+ l'.journal

/-- Registry and journal are in order while some modules are being loaded, the innermost first. -/
structure Ledger (l : Loader) (active : List Module) : Prop where
  distinct : l.registry.modules.Pairwise fun u v => u.id.same v.id = false
  loading : l.registry.modules.filter (fun u => u.state = .loading) = active.reverse
  startedOnce : l.started.Pairwise fun p q => p.same q = false
  startedIn : ∀ p ∈ l.started, ∃ u ∈ l.registry.modules, u.id = p
  settledIn : ∀ e ∈ l.settled, ∃ u ∈ l.registry.modules, u.id = e.1
  endings : ∀ u ∈ l.registry.modules,
    l.endings u.id = if u.state = .loading then [] else [u.state]

namespace Precedes

variable {l l' l'' : Loader}

theorem refl (l : Loader) : l.Precedes l :=
  ⟨fun u hu => ⟨u, hu, rfl, rfl, fun _ => rfl⟩, List.suffix_refl _⟩

theorem trans (h : l.Precedes l') (h' : l'.Precedes l'') : l.Precedes l'' := by
  refine ⟨fun u hu => ?_, h.journal.trans h'.journal⟩
  obtain ⟨u', hu', hid, hob, hst⟩ := h.kept u hu
  obtain ⟨u'', hu'', hid', hob', hst'⟩ := h'.kept u' hu'
  refine ⟨u'', hu'', hid'.trans hid, hob'.trans hob, fun hs => ?_⟩
  obtain rfl := hst hs
  exact hst' hs

/-- A loader with more modules and a longer journal comes later. -/
theorem of_append {more : List Module} (hm : l'.registry.modules = l.registry.modules ++ more)
    (hj : l.journal <:+ l'.journal) : l.Precedes l' := by
  refine ⟨fun u hu => ⟨u, ?_, rfl, rfl, fun _ => rfl⟩, hj⟩
  rw [hm]
  exact List.mem_append_left _ hu

theorem of_modules_eq (hm : l'.registry.modules = l.registry.modules)
    (hj : l.journal <:+ l'.journal) : l.Precedes l' :=
  of_append (hm.trans (List.append_nil _).symm) hj

theorem note (l : Loader) (e : Event) : l.Precedes (l.note e) :=
  of_modules_eq rfl (List.suffix_cons _ _)

end Precedes

namespace Reads

variable {l l' : Loader}

theorem modules (h : l.Reads l') : l'.registry.modules = l.registry.modules := by
  obtain ⟨ids, rfl⟩ := h
  rfl

theorem started (h : l.Reads l') : l'.started = l.started := by
  obtain ⟨ids, rfl⟩ := h
  have hnone : (ids.map Event.read).filterMap Event.started? = [] := by
    simp [List.filterMap_map, Function.comp_def, Event.started?]
  simp only [Loader.started, List.filterMap_append, hnone, List.nil_append]

theorem settled (h : l.Reads l') : l'.settled = l.settled := by
  obtain ⟨ids, rfl⟩ := h
  have hnone : (ids.map Event.read).filterMap Event.settled? = [] := by
    simp [List.filterMap_map, Function.comp_def, Event.settled?]
  simp only [Loader.settled, List.filterMap_append, hnone, List.nil_append]

theorem precedes (h : l.Reads l') : l.Precedes l' := by
  refine .of_modules_eq h.modules ?_
  obtain ⟨ids, rfl⟩ := h
  exact List.suffix_append _ _

end Reads

namespace Ledger

variable {l l' : Loader} {active : List Module} {u : Module}

theorem empty (hm : l.registry.modules = []) (hj : l.journal = []) : l.Ledger [] where
  distinct := by simp only [hm, List.Pairwise.nil]
  loading := by simp only [hm, List.filter_nil, List.reverse_nil]
  startedOnce := by simp only [started, hj, List.filterMap_nil, List.Pairwise.nil]
  startedIn := by simp [started, hj]
  settledIn := by simp [settled, hj]
  endings := by simp [hm]

/-- The books are about nothing but the modules, and the beginnings and endings of loadings. -/
theorem congr (h : l.Ledger active) (hm : l'.registry.modules = l.registry.modules)
    (hs : l'.started = l.started) (he : l'.settled = l.settled) : l'.Ledger active where
  distinct := by rw [hm]; exact h.distinct
  loading := by rw [hm]; exact h.loading
  startedOnce := by rw [hs]; exact h.startedOnce
  startedIn := by rw [hs, hm]; exact h.startedIn
  settledIn := by rw [he, hm]; exact h.settledIn
  endings := by rw [hm]; simpa only [Loader.endings, he] using h.endings

theorem eq_of_same (h : l.Ledger active) {v : Module} (hu : u ∈ l.registry.modules)
    (hv : v ∈ l.registry.modules) (hs : u.id.same v.id = true) : u = v := by
  refine List.Pairwise.forall_of_forall_of_flip (R := fun u v => u.id.same v.id = true → u = v)
    (fun x _ _ => rfl) ?_ ?_ hu hv hs
  · refine h.distinct.imp fun {x y} hxy hs => ?_
    rw [hxy] at hs
    contradiction
  · refine h.distinct.imp fun {x y} hxy hs => ?_
    rw [Path.same_comm, hxy] at hs
    contradiction

theorem find?_iff (h : l.Ledger active) {id : Path} :
    l.registry.find? id = some u ↔ u ∈ l.registry.modules ∧ u.id.same id = true := by
  constructor
  · exact Registry.find?_some
  · rintro ⟨hu, hs⟩
    cases hf : l.registry.find? id with
    | none =>
      rw [Registry.find?_eq_none.mp hf u hu] at hs
      contradiction
    | some v =>
      obtain ⟨hv, hvs⟩ := Registry.find?_some hf
      have hvu : v.id.same u.id = true := by
        rw [Path.same_congr hvs, Path.same_comm]
        exact hs
      rw [h.eq_of_same hv hu hvu]

/-- A module that is being loaded is registered, and is still loading. -/
theorem mem_of_active (h : l.Ledger active) (hu : u ∈ active) :
    u ∈ l.registry.modules ∧ u.state = .loading := by
  have hf : u ∈ l.registry.modules.filter (fun u => u.state = .loading) := by
    rw [h.loading]
    exact List.mem_reverse.mpr hu
  simpa only [List.mem_filter, decide_eq_true_eq] using hf

/-- The modules that are being loaded have different identifiers. -/
theorem distinct_of_active (h : l.Ledger (u :: active)) {v : Module} (hv : v ∈ active) :
    v.id.same u.id = false := by
  have hp : (u :: active).reverse.Pairwise fun u v => u.id.same v.id = false := by
    rw [← h.loading]
    exact h.distinct.sublist List.filter_sublist
  rw [List.reverse_cons, List.pairwise_append] at hp
  exact hp.2.2 v (List.mem_reverse.mpr hv) u (List.mem_singleton_self u)

/-! ### What keeps the books in order -/

theorem reads (h : l.Ledger active) (hr : l.Reads l') : l'.Ledger active :=
  h.congr hr.modules hr.started hr.settled

theorem endings_eq_nil (h : l.Ledger active) {id : Path}
    (hnew : ∀ v ∈ l.registry.modules, v.id.same id = false) : l.endings id = [] := by
  rw [Loader.endings, List.map_eq_nil_iff, List.filter_eq_nil_iff]
  intro e he
  obtain ⟨v, hv, hid⟩ := h.settledIn e he
  rw [← hid, hnew v hv]
  simp only [Bool.false_eq_true, not_false_eq_true]

/-- A new module is registered, and is being loaded from then on. -/
theorem register (h : l.Ledger active) (hnew : ∀ v ∈ l.registry.modules, v.id.same u.id = false)
    (hu : u.state = .loading) (hm : l'.registry.modules = l.registry.modules ++ [u])
    (hs : l'.started = l.started) (he : l'.settled = l.settled) : l'.Ledger (u :: active) where
  distinct := by
    rw [hm, List.pairwise_append]
    refine ⟨h.distinct, List.pairwise_singleton _ _, fun v hv w hw => ?_⟩
    obtain rfl := List.mem_singleton.mp hw
    exact hnew v hv
  loading := by
    rw [hm, List.filter_append, h.loading, List.reverse_cons]
    simp only [List.filter_cons, hu, decide_true, if_true, List.filter_nil]
  startedOnce := by
    rw [hs]
    exact h.startedOnce
  startedIn p hp := by
    obtain ⟨v, hv, hid⟩ := h.startedIn p (hs ▸ hp)
    exact ⟨v, hm ▸ List.mem_append_left _ hv, hid⟩
  settledIn e hmem := by
    obtain ⟨v, hv, hid⟩ := h.settledIn e (he ▸ hmem)
    exact ⟨v, hm ▸ List.mem_append_left _ hv, hid⟩
  endings v hv := by
    rw [hm, List.mem_append, List.mem_singleton] at hv
    simp only [Loader.endings, he]
    obtain hv | rfl := hv
    · exact h.endings v hv
    · rw [if_pos hu]
      exact h.endings_eq_nil hnew

theorem start (h : l.Ledger active) (hu : u ∈ l.registry.modules)
    (hnew : ∀ p ∈ l.started, u.id.same p = false) (s : Strategy) :
    (l.note (.started u.id s)).Ledger active where
  distinct := h.distinct
  loading := h.loading
  startedOnce := List.pairwise_cons.mpr ⟨hnew, h.startedOnce⟩
  startedIn p hp := by
    obtain rfl | hp := List.mem_cons.mp hp
    · exact ⟨u, hu, rfl⟩
    · exact h.startedIn p hp
  settledIn := h.settledIn
  endings := h.endings

/-- What is loading after a module is settled was loading before, and is another module. -/
theorem filter_loading_withState (modules : List Module) (id : Path) {state : ModuleState}
    (hs : state ≠ .loading) :
    (modules.map fun v => v.withState id state).filter (fun v => v.state = .loading) =
      (modules.filter fun v => v.state = .loading).filter fun v => !v.id.same id := by
  induction modules with
  | nil => rfl
  | cons v rest ih =>
    rw [List.map_cons, List.filter_cons, ih, List.filter_cons]
    cases hv : v.id.same id with
    | true =>
      rw [Module.withState_of_same hv, if_neg (by simpa using hs)]
      split
      · rw [List.filter_cons_of_neg (by simp [hv])]
      · rfl
    | false =>
      rw [Module.withState_of_not_same hv]
      split
      · rw [List.filter_cons_of_pos (by simp [hv])]
      · rfl

theorem settle (h : l.Ledger (u :: active)) {state : ModuleState} (hs : state ≠ .loading) :
    (l.settle u.id state).Ledger active := by
  obtain ⟨hu, hul⟩ := h.mem_of_active (List.mem_cons_self ..)
  have hmodules : (l.settle u.id state).registry.modules =
      l.registry.modules.map fun v => v.withState u.id state := rfl
  have kept {v : Module} (hv : v ∈ l.registry.modules) :
      ∃ w ∈ (l.settle u.id state).registry.modules, w.id = v.id :=
    ⟨v.withState u.id state, List.mem_map_of_mem hv, Module.withState_id⟩
  have hendings (id : Path) : (l.settle u.id state).endings id =
      if u.id.same id then state :: l.endings id else l.endings id := by
    show ((_ :: l.settled).filter _).map _ = _
    rw [List.filter_cons]
    split <;> rfl
  exact {
    distinct := by
      rw [hmodules, List.pairwise_map]
      simpa only [Module.withState_id] using h.distinct
    loading := by
      have hactive (v : Module) (hv : v ∈ active.reverse) : (!v.id.same u.id) = true := by
        rw [h.distinct_of_active (List.mem_reverse.mp hv)]
        rfl
      have hself : (!u.id.same u.id) = false := by rw [Path.same_refl]; rfl
      rw [hmodules, filter_loading_withState _ _ hs, h.loading, List.reverse_cons,
        List.filter_append, List.filter_eq_self.mpr hactive,
        List.filter_cons_of_neg (Bool.not_eq_true _ ▸ hself), List.filter_nil, List.append_nil]
    startedOnce := h.startedOnce
    startedIn := fun p hp => by
      obtain ⟨v, hv, hid⟩ := h.startedIn p hp
      obtain ⟨w, hw, hwid⟩ := kept hv
      exact ⟨w, hw, hwid.trans hid⟩
    settledIn := fun e he => by
      obtain rfl | he := List.mem_cons.mp he
      · exact kept hu
      · obtain ⟨v, hv, hid⟩ := h.settledIn e he
        obtain ⟨w, hw, hwid⟩ := kept hv
        exact ⟨w, hw, hwid.trans hid⟩
    endings := fun w hw => by
      obtain ⟨v, hv, rfl⟩ := List.mem_map.mp hw
      rw [Module.withState_id, hendings]
      cases hvu : v.id.same u.id with
      | true =>
        obtain rfl := h.eq_of_same hv hu hvu
        rw [Module.withState_of_same hvu, if_pos hvu, if_neg hs, h.endings v hv, if_pos hul]
      | false =>
        rw [Path.same_comm] at hvu
        rw [if_neg (by rw [hvu]; exact Bool.false_ne_true), h.endings v hv,
          Module.withState_of_not_same (by rw [Path.same_comm]; exact hvu)] }

end Ledger

/-- The loading of a module that comes to its end takes nothing back. -/
theorem Ledger.precedes_settle {l : Loader} {active : List Module} {u : Module}
    (h : l.Ledger (u :: active)) (state : ModuleState) : l.Precedes (l.settle u.id state) := by
  obtain ⟨hu, hul⟩ := h.mem_of_active (List.mem_cons_self ..)
  refine ⟨fun v hv => ⟨v.withState u.id state, List.mem_map_of_mem hv, Module.withState_id,
    Module.withState_object, fun hvs => ?_⟩, List.suffix_cons _ _⟩
  cases hvu : v.id.same u.id with
  | true =>
    obtain rfl := h.eq_of_same hv hu hvu
    exact absurd hul hvs
  | false => exact Module.withState_of_not_same hvu

end Loader

end ModuleLoader
