import ModuleLoader.Proofs.Once

/-! What the registry counts. In the life of a loader each request that stands for a file counts
once, as a miss if it is the first for its identifier and else as a hit; the identifiers stand in
the order of their first requests. That holds in the middle of loads as well as between them, and
whatever comes of the loads. -/
namespace ModuleLoader

open Script

/-- The paths, each where it first stands; paths of the same components count as one. -/
def Path.firsts : List Path → List Path
  | [] => []
  | p :: rest => p :: (firsts rest).filter fun q => !p.same q

/-- What is dropped as the same as `p` is not the same as `id`. -/
theorem Path.any_filter_not_same {p id : Path} (hp : p.same id = false) (ids : List Path) :
    (ids.filter fun q => !p.same q).any (fun q => q.same id) = ids.any fun q => q.same id := by
  rw [List.any_filter]
  refine congrArg ids.any (funext fun q => ?_)
  cases hq : p.same q with
  | true => rw [← Path.same_congr hq, hp]; rfl
  | false => rfl

theorem Path.firsts_concat (ids : List Path) (id : Path) :
    firsts (ids ++ [id]) =
      if (firsts ids).any (fun p => p.same id) then firsts ids else firsts ids ++ [id] := by
  induction ids with
  | nil => rfl
  | cons p rest ih =>
    rw [List.cons_append, firsts, firsts, ih, List.any_cons]
    cases hp : p.same id with
    | true =>
      rw [Bool.true_or, if_pos rfl]
      split
      · rfl
      · rw [List.filter_append, List.filter_cons_of_neg (by simp [hp]), List.filter_nil,
          List.append_nil]
    | false =>
      rw [Bool.false_or, any_filter_not_same hp]
      split
      · rfl
      · rw [List.filter_append, List.filter_cons_of_pos (by simp [hp]), List.filter_nil,
          List.cons_append]

/-! ### One request -/

/-- What a registry tells of itself: its identifiers, and how its look-ups counted. -/
structure Tally where
  identifiers : List Path
  hits : Nat
  misses : Nat

namespace Tally

/-- The tally after a request, if it stood for a file. -/
def after (t : Tally) : Option Path → Tally
  | none => t
  | some id =>
    if t.identifiers.any (fun p => p.same id) then { t with hits := t.hits + 1 }
    else { t with identifiers := t.identifiers ++ [id], misses := t.misses + 1 }

/-- The tally is that of these requests. -/
structure Sums (t : Tally) (ids : List Path) : Prop where
  identifiers : t.identifiers = Path.firsts ids
  misses : t.misses = t.identifiers.length
  total : t.hits + t.misses = ids.length

theorem Sums.after {t : Tally} {ids : List Path} (h : t.Sums ids) (asked : Option Path) :
    (t.after asked).Sums (ids ++ asked.toList) := by
  obtain ⟨hids, hmisses, htotal⟩ := h
  cases asked with
  | none => simpa [Tally.after] using ⟨hids, hmisses, htotal⟩
  | some id =>
    have hfirsts := Path.firsts_concat ids id
    rw [← hids] at hfirsts
    simp only [Tally.after]
    split
    · rename_i hany
      rw [if_pos hany] at hfirsts
      exact ⟨hfirsts.symm, hmisses, by simp; omega⟩
    · rename_i hany
      rw [if_neg hany] at hfirsts
      exact ⟨hfirsts.symm, by simp [hmisses], by simp; omega⟩

theorem identifiers_after (t : Tally) (asked : Option Path) :
    t.identifiers <+: (t.after asked).identifiers := by
  unfold after
  split
  · exact List.prefix_refl _
  · split
    · exact List.prefix_refl _
    · exact List.prefix_append _ _

end Tally

def Registry.tally (r : Registry) : Tally :=
  ⟨r.identifiers, r.hits, r.misses⟩

theorem Registry.isSome_find? (r : Registry) (id : Path) :
    (r.find? id).isSome = r.identifiers.any fun p => p.same id := by
  simp only [find?, identifiers, List.isSome_find?, List.any_map, Function.comp_def]

theorem Registry.tally_hit {r : Registry} {id : Path} {u : Module} (h : r.find? id = some u) :
    r.tally.after (some id) = { r with hits := r.hits + 1 }.tally := by
  have hany := r.isSome_find? id
  rw [h, Option.isSome_some] at hany
  exact if_pos hany.symm

theorem Registry.tally_new {r : Registry} {id : Path} {u : Module} (h : r.find? id = none)
    (hu : u.id = id) :
    r.tally.after (some id) =
      { r with modules := r.modules ++ [u], misses := r.misses + 1 }.tally := by
  have hany := r.isSome_find? id
  rw [h, Option.isSome_none] at hany
  refine (if_neg (by simp [tally, ← hany])).trans ?_
  simp [tally, identifiers, hu]

theorem Registry.tally_setState (r : Registry) (id : Path) (state : ModuleState) :
    (r.setState id state).tally = r.tally := by
  simp only [tally, identifiers_setState]
  rfl

namespace Moment

/-- What the reference stands for that is about to be loaded, if it stands for a file. -/
def resolves? : Moment → Option Path
  | entering _ (.load reference dir) _ m => (m.loader.resolve reference dir).toOption
  | _ => none

end Moment

/-- From one loader to the other a request was made, or none was. What the loader was built from is
the same. -/
structure Loader.Counts (asked : Option Path) (l l' : Loader) : Prop where
  options : l.SameOptions l'
  tally : l'.registry.tally = l.registry.tally.after asked

namespace Loader.Counts

variable {l l' l'' : Loader} {asked : Option Path}

theorem of_reads (h : l.Reads l') : l.Counts .none l' :=
  ⟨h.sameOptions, by obtain ⟨ids, rfl⟩ := h; rfl⟩

theorem note (h : l.Counts asked l') (e : Event) : l.Counts asked (l'.note e) :=
  ⟨h.options.trans ⟨rfl, rfl, rfl, rfl, rfl⟩, h.tally⟩

theorem settle (h : l.Counts asked l') (id : Path) (state : ModuleState) :
    l.Counts asked (l'.settle id state) :=
  ⟨h.options.trans ⟨rfl, rfl, rfl, rfl, rfl⟩, (Registry.tally_setState _ _ _).trans h.tally⟩

end Loader.Counts

namespace Plan

variable {reference : String} {dir id : Path} {m m' : Machine} {q : Pause Value}

theorem counts_reuse {u : Module} (hu : m.loader.registry.find? id = some u) :
    m.loader.Counts (some id) ((seeking reference dir m).reuse id).loader :=
  ⟨⟨rfl, rfl, rfl, rfl, rfl⟩, (Registry.tally_hit hu).symm⟩

theorem counts_enrol (hu : m.loader.registry.find? id = none) :
    m.loader.Counts (some id) ((seeking reference dir m).enrol id).loader :=
  ⟨⟨rfl, rfl, rfl, rfl, rfl⟩, (Registry.tally_new hu rfl).symm⟩

theorem counts_ofLoad (h : (ofLoad reference dir).advance m = some (q, m')) :
    m.loader.Counts (m.loader.resolve reference dir).toOption m'.loader := by
  cases hres : m.loader.resolve reference dir with
  | error fault =>
    rw [advance_ofLoad_notFound hres] at h
    obtain ⟨-, rfl⟩ := Prod.mk.inj (Option.some.inj h)
    exact ⟨⟨rfl, rfl, rfl, rfl, rfl⟩, rfl⟩
  | ok id =>
    cases hfind : m.loader.registry.find? id with
    | some u =>
      rw [advance_ofLoad_hit hres hfind] at h
      obtain ⟨-, rfl⟩ := Prod.mk.inj (Option.some.inj h)
      exact counts_reuse hfind
    | none =>
      have henrol : m.loader.Counts (some id) ((seeking reference dir m).enrol id).loader :=
        counts_enrol hfind
      rw [advance_ofLoad_new hres hfind] at h
      cases hs : m.loader.strategyFor? id with
      | none =>
        have hs' : ((seeking reference dir m).enrol id).loader.strategyFor?
          (Module.create m.heap id).1.id = none := hs
        rw [advance_loadNew_unknown hs'] at h
        obtain ⟨-, rfl⟩ := Prod.mk.inj (Option.some.inj h)
        exact henrol.settle _ _
      | some s =>
        have hs' : ((seeking reference dir m).enrol id).loader.strategyFor?
          (Module.create m.heap id).1.id = some s := hs
        rw [advance_loadNew_started hs'] at h
        obtain ⟨-, rfl⟩ := Prod.mk.inj (Option.some.inj h)
        exact henrol.note _

theorem counts_conclude {u : Module} {r : Except Exception Unit}
    (h : (conclude u r).advance m = some (q, m')) : m.loader.Counts none m'.loader := by
  have hself : m.loader.Counts none m.loader := ⟨.refl _, rfl⟩
  cases r with
  | ok a =>
    rw [advance_conclude_ok] at h
    obtain ⟨-, rfl⟩ := Prod.mk.inj (Option.some.inj h)
    exact hself.settle _ _
  | error e =>
    rw [advance_conclude_error] at h
    obtain ⟨-, rfl⟩ := Prod.mk.inj (Option.some.inj h)
    exact hself.settle _ _

end Plan

namespace Moment

theorem machine_moment {n : Nat} {t : Task} {stack : Stack t} {m : Machine} (q : Pause t.Result) :
    (q.moment n t stack m).machine = m := by
  cases q <;> rfl

theorem counts_step {a b : Moment} (ha : a.Sound) (h : a.step = some b) :
    a.machine.loader.Counts a.resolves? b.machine.loader := by
  match a with
  | resting _ | entering 0 _ _ _ | leaving _ _ (.bottom _) _ => contradiction
  | entering (n + 1) t stack m =>
    obtain ⟨⟨q, m'⟩, hq, rfl⟩ := Option.map_eq_some_iff.mp h
    rw [machine_moment]
    by_cases ht : t.isLoad = true
    · cases t with
      | load reference dir => exact Plan.counts_ofLoad hq
      | _ => cases ht
    · rw [Bool.not_eq_true] at ht
      have hnone : (entering (n + 1) t stack m).resolves? = none := by
        cases t with
        | load reference dir => cases ht
        | _ => rfl
      rw [hnone]
      exact .of_reads (Plan.ofTask_fits m.loader.explains_own ht hq).1
  | leaving s r (.frame n t next below) m =>
    obtain ⟨-, ⟨hw, -⟩, hr⟩ := ha
    obtain ⟨⟨q, m'⟩, hq, rfl⟩ := Option.map_eq_some_iff.mp h
    rw [machine_moment]
    replace hr (e : Exception) (he : r = .error e) : m.loader.Explains e := (hr e he).1
    by_cases ht : t.isLoad = true
    · cases hw with
      | module => exact Plan.counts_conclude hq
      | plain htask => cases htask.symm.trans ht
      | _ => cases ht
    · rw [Bool.not_eq_true] at ht
      exact .of_reads (hw.fits m.loader.explains_own ht hr hq).1

theorem counts_follows {a b : Moment} (ha : a.Sound) (h : Follows a b) :
    a.machine.loader.registry.tally.after a.resolves? = b.machine.loader.registry.tally := by
  cases h with
  | step h => exact (counts_step ha h).tally.symm
  | returned => rfl
  | meddled hr _ => exact congrArg Registry.tally hr.symm
  | requested ht => rfl

end Moment

/-! ### Requests that come to nothing -/

namespace Machine

variable {m : Machine} {reference : String} {dir : Path} {fault : LoadFault}

theorem run_load_notFound (h : m.loader.resolve reference dir = .error fault) (n : Nat) :
    m.run (Evaluate.load (n + 1) reference dir) =
      some (.error (.load fault), Plan.seeking reference dir m) := by
  show m.run ((Plan.ofLoad reference dir).carryOut _) = _
  rw [Plan.run_carryOut, Plan.advance_ofLoad_notFound h]

theorem run_require_notFound {home : Path}
    (h : m.loader.resolve reference home.directory = .error fault)
    (hd : m.loader.dropped = false) (n : Nat) (this : Value) (args : List Value) :
    m.run (Evaluate.call (n + 2) (.native (.require home)) this (.string reference :: args)) =
      some (.error (.load fault), Plan.seeking reference home.directory m) := by
  show m.run ((Plan.require home (.string reference :: args)).carryOut _) = _
  rw [Plan.run_carryOut, advance_require_string hd]
  show (m.run (Evaluate.load (n + 1) reference home.directory)).bind _ = _
  rw [run_load_notFound h]
  rfl

/-- What is not a string is refused before anything is looked for. -/
theorem run_require_refused {home : Path} {args : List Value}
    (h : ∀ s, args.head? ≠ some (.string s)) (n : Nat) (this : Value) :
    m.run (Evaluate.call (n + 1) (.native (.require home)) this args) =
      some (.error (.thrown (.object m.heap.objects.size)),
        m.raised "TypeError" "The \"id\" argument must be of type string") := by
  have hplan : Plan.require home args =
      .act (Run.raise "TypeError" "The \"id\" argument must be of type string") .done := by
    unfold Plan.require
    split
    · rename_i s hs
      exact absurd hs (h s)
    · rfl
  show m.run ((Plan.require home args).carryOut _) = _
  rw [hplan]
  exact Machine.run_bind_error (run_raise _ _)

end Machine

/-- The registry accounts for requests that stood for these identifiers. -/
structure Registry.Accounts (r : Registry) (ids : List Path) : Prop where
  length : r.identifiers.length = r.size
  misses : r.misses = r.size
  total : r.hits + r.misses = ids.length
  identifiers : r.identifiers = Path.firsts ids
  distinct : r.identifiers.Pairwise fun p q => p.same q = false

namespace Moment

/-! ### The life of a loader -/

/-- The moment is part of the life of a loader that began with nothing registered, in which requests
were made that stood for these identifiers, in this order. -/
inductive History : Moment → List Path → Prop where
  | begin {m : Machine} (hr : m.loader.registry = .empty) (hj : m.loader.journal = []) :
      History (.resting m) []
  | next {a b : Moment} {ids : List Path} (h : History a ids) (hab : Follows a b) :
      History b (ids ++ a.resolves?.toList)

variable {a b : Moment} {ids : List Path}

theorem History.reachable (h : History a ids) : a.Reachable := by
  induction h with
  | @begin m hr hj => exact ⟨m, by rw [hr]; rfl, hj, .refl⟩
  | next _ hab ih => exact ih.leads (.single hab)

theorem History.sums (h : History a ids) : a.machine.loader.registry.tally.Sums ids := by
  induction h with
  | begin hr _ =>
    show (Registry.tally _).Sums []
    rw [machine, hr]
    exact ⟨rfl, rfl, rfl⟩
  | next h hab ih =>
    rw [← counts_follows h.reachable.sound hab]
    exact ih.after _

theorem History.accounts (h : History a ids) : a.machine.loader.registry.Accounts ids where
  length := List.length_map _
  misses := h.sums.misses.trans (List.length_map _)
  total := h.sums.total
  identifiers := h.sums.identifiers
  distinct := List.pairwise_map.mpr h.reachable.sound.ledger.distinct

theorem History.leads (h : History a ids) (hab : Leads a b) :
    ∃ more, History b (ids ++ more) := by
  induction hab with
  | refl => exact ⟨[], by rwa [List.append_nil]⟩
  | tail _ hlast ih =>
    obtain ⟨more, hb⟩ := ih
    exact ⟨_, List.append_assoc .. ▸ hb.next hlast⟩

theorem Leads.identifiers (h : a.Sound) (hab : Leads a b) :
    a.machine.loader.registry.identifiers <+: b.machine.loader.registry.identifiers := by
  induction hab with
  | refl => exact List.prefix_refl _
  | @tail b c hb hlast ih =>
    have hafter := (b.machine.loader.registry.tally).identifiers_after b.resolves?
    rw [counts_follows (Leads.sound hb h).1 hlast] at hafter
    exact ih.trans hafter

/-- The accounts of the registry, at every moment of a loader's life. All that was registered was a
miss once, and hits and misses together are the requests so far that stood for a file, of the host
and of scripts, however deep in other loads. The identifiers are different files, in the order in
which they were first asked for; later ones are only added at the end. A request that stands for no
file, and one for what is not a string, changes nothing in the registry. -/
theorem registry_accounts {a : Moment} {ids : List Path} (h : History a ids) :
    a.machine.loader.registry.Accounts ids ∧
    (∀ {b}, Leads a b → (∃ more, History b (ids ++ more)) ∧
      a.machine.loader.registry.identifiers <+: b.machine.loader.registry.identifiers) ∧
    (∀ {reference dir fault}, a.machine.loader.resolve reference dir = .error fault → ∀ n,
      ∃ m', a.machine.run (Evaluate.load (n + 1) reference dir) = some (.error (.load fault), m') ∧
        m'.loader.registry = a.machine.loader.registry) ∧
    (∀ {reference home fault}, a.machine.loader.resolve reference home.directory = .error fault →
      a.machine.loader.dropped = false → ∀ n this args,
        ∃ m', a.machine.run (Evaluate.call (n + 2) (.native (.require home)) this
            (.string reference :: args)) = some (.error (.load fault), m') ∧
          m'.loader.registry = a.machine.loader.registry) ∧
    ∀ {home args}, (∀ s, args.head? ≠ some (.string s)) → ∀ n this,
      ∃ v m', a.machine.run (Evaluate.call (n + 1) (.native (.require home)) this args) =
          some (.error (.thrown v), m') ∧
        m'.loader.registry = a.machine.loader.registry := by
  have hsound := h.reachable.sound
  refine ⟨h.accounts, ?_, ?_, ?_, ?_⟩
  · intro b hab
    exact ⟨h.leads hab, hab.identifiers hsound⟩
  · intro reference dir fault hres n
    exact ⟨_, Machine.run_load_notFound hres n, rfl⟩
  · intro reference home fault hres hd n this args
    exact ⟨_, Machine.run_require_notFound hres hd n this args, rfl⟩
  · intro home args hargs n this
    exact ⟨_, _, Machine.run_require_refused hargs n this, rfl⟩

/-- Two requests, the second of them made by the script that the first stood for. -/
theorem registry_accounts_sample : ∃ m ids, History (.resting m) ids ∧ ids.length = 2 ∧
    Path.firsts ids = [⟨"/catches.js"⟩, ⟨"/throws.js"⟩] := by
  have hrun : (Sample.machine.loadIn 60 "./catches" ⟨"/"⟩).any (fun r =>
      r.2.loader.registry.hits + r.2.loader.registry.misses = 2 ∧
        r.2.loader.registry.identifiers = [⟨"/catches.js"⟩, ⟨"/throws.js"⟩]) = true := by
    decide +kernel
  obtain ⟨⟨r, m⟩, hload, hp⟩ := (Option.any_eq_true ..).mp hrun
  obtain ⟨htotal, hidentifiers⟩ := of_decide_eq_true hp
  obtain ⟨r', hleads, -⟩ := leads_of_loadIn hload
  obtain ⟨ids, hids⟩ := (History.begin (m := Sample.machine) rfl rfl).leads (hleads.tail .returned)
  obtain ⟨haccounts, -⟩ := registry_accounts hids
  exact ⟨m, _, hids, haccounts.total.symm.trans htotal, haccounts.identifiers ▸ hidentifiers⟩

end Moment

end ModuleLoader
