import ModuleLoader.Proofs.Frames
import ModuleLoader.Proofs.Ledger
import ModuleLoader.Options

/-! The life of a loader. It begins with empty books; the host makes requests, one after the other,
and each runs through its moments. At every moment the books are in order, and the modules that are
being loaded are those whose loading is on the stack. -/
namespace ModuleLoader

open Script

def Task.module? : Task → Option Module
  | start u _ => some u
  | _ => none

namespace Stack

/-- The modules whose loading waits for a strategy, the innermost first. -/
def loading {t : Task} : Stack t → List Module
  | bottom _ => []
  | frame _ t' _ below => (if t'.isLoad then t.module?.toList else []) ++ below.loading

/-- Each task on the stack knows why it waits, and exceptions on hold are ones of `E`. -/
def Sound (E : Exception → Prop) {t : Task} : Stack t → Prop
  | bottom _ => t.isStart = false
  | frame _ t' next below => Waits E t' t next ∧ below.Sound E

theorem Sound.mono {E E' : Exception → Prop} (hE : ∀ e, E e → E' e) {t : Task} {stack : Stack t}
    (h : stack.Sound E) : stack.Sound E' := by
  induction stack with
  | bottom t => exact h
  | frame n t next below ih => exact ⟨h.1.mono hE, ih h.2⟩

end Stack

/-- The loader's books account for an exception: a module that a value was thrown out of has
failed. -/
def Loader.Explains (l : Loader) : Exception → Prop
  | .thrown _ => True
  | .load fault => ∀ path message, fault ≠ .uncaught path message
  | .uncaught path _ => ∃ u ∈ l.registry.modules, u.id = path ∧ u.state = .failed

theorem Loader.explains_own (l : Loader) (e : Exception) (h : e.Own) : l.Explains e := by
  cases e with
  | thrown v => trivial
  | load fault => exact h
  | uncaught path v => exact h.elim

theorem Loader.Precedes.explains {l l' : Loader} (h : l.Precedes l') (e : Exception)
    (he : l.Explains e) : l'.Explains e := by
  cases e with
  | thrown v => trivial
  | load fault => exact he
  | uncaught path v =>
    obtain ⟨u, hu, hid, hs⟩ := he
    obtain ⟨u', hu', -, -, hkept⟩ := h.kept u hu
    obtain rfl := hkept (by rw [hs]; nofun)
    exact ⟨u', hu', hid, hs⟩

namespace Moment

/-- The modules whose loading is on the stack, the innermost first. -/
def loading : Moment → List Module
  | resting _ => []
  | entering _ _ stack _ | leaving _ _ stack _ => stack.loading

/-- One moment comes directly after another. Between its requests the host may do what it likes, as
long as it leaves registry and journal alone. -/
inductive Follows : Moment → Moment → Prop where
  | step {a b : Moment} (h : a.step = some b) : Follows a b
  | returned {t : Task} {r : Except Exception t.Result} {m : Machine} :
      Follows (.leaving t r (.bottom t) m) (.resting m)
  | meddled {m m' : Machine} (hr : m'.loader.registry = m.loader.registry)
      (hj : m'.loader.journal = m.loader.journal) : Follows (.resting m) (.resting m')
  | requested {n : Nat} {t : Task} {m : Machine} (ht : t.isStart = false) :
      Follows (.resting m) (.entering n t (.bottom t) m)

abbrev Leads : Moment → Moment → Prop :=
  Relation.ReflTransGen Follows

/-- The moment is part of the life of a loader that began with nothing registered. -/
def Reachable (a : Moment) : Prop :=
  ∃ m : Machine, m.loader.registry.modules = [] ∧ m.loader.journal = [] ∧ Leads (.resting m) a

/-- The books are in order, every task on the stack knows why it waits, and an exception on its way
is accounted for. A strategy that is about to work on a module was noted last. -/
def Sound : Moment → Prop
  | resting m => m.loader.Ledger []
  | entering _ t stack m => m.loader.Ledger stack.loading ∧ stack.Sound m.loader.Explains ∧
      ∀ u s, t = .start u s → m.loader.started.head? = some u.id
  | leaving t r stack m => m.loader.Ledger stack.loading ∧ stack.Sound m.loader.Explains ∧
      (Pause.ended r).Fits m.loader.Explains t

theorem Sound.ledger {a : Moment} (h : a.Sound) : a.machine.loader.Ledger a.loading := by
  cases a with
  | resting m => exact h
  | entering n t stack m => exact h.1
  | leaving t r stack m => exact h.1

/-- The moment continues the books of a loader: it is sound, nothing was taken back, and if a
strategy sets to work, then it is the first since. -/
structure Continues (l : Loader) (a : Moment) : Prop where
  sound : a.Sound
  precedes : l.Precedes a.machine.loader
  started : ∀ n u s stack m, a = .entering n (.start u s) stack m →
    m.loader.started = u.id :: l.started

end Moment

theorem Waits.not_start {E : Exception → Prop} {t s : Task}
    {next : Except Exception s.Result → Plan t.Result} (h : Waits E t s next)
    (ht : t.isLoad = false) : s.isStart = false := by
  cases h with
  | plain _ hs _ => exact hs
  | function => rfl
  | block => rfl
  | handler => rfl
  | finalizer _ => rfl
  | module => cases ht

namespace Moment

theorem continues_reads {n : Nat} {t : Task} {stack : Stack t} {m m' : Machine} {q : Pause t.Result}
    (hreads : m.loader.Reads m'.loader) (ht : t.isLoad = false)
    (hq : q.Fits m.loader.Explains t) (hl : m.loader.Ledger stack.loading)
    (hs : stack.Sound m.loader.Explains) : Continues m.loader (q.moment n t stack m') := by
  have hE := hreads.precedes.explains
  replace hq := hq.mono hE
  replace hs := hs.mono hE
  replace hl := hl.reads hreads
  cases q with
  | ended r => exact ⟨⟨hl, hs, hq⟩, hreads.precedes, nofun⟩
  | asked s next =>
    have hstart := hq.not_start ht
    refine ⟨⟨?_, ⟨hq, hs⟩, ?_⟩, hreads.precedes, ?_⟩
    · simpa only [Stack.loading, ht, Bool.false_eq_true, if_false, List.nil_append] using hl
    · rintro u s' rfl
      cases hstart
    · rintro _ u s' _ _ ⟨⟩
      cases hstart

theorem ledger_enrol {m : Machine} {active : List Module} {id : Path}
    (h : m.loader.Ledger active) (hnew : m.loader.registry.find? id = none) :
    (m.enrol id).loader.Ledger ((Module.create m.heap id).1 :: active) ∧
      m.loader.Precedes (m.enrol id).loader :=
  ⟨h.register (Registry.find?_eq_none.mp hnew) rfl rfl rfl rfl,
    .of_append rfl (List.suffix_cons _ _)⟩

theorem continues_load {reference : String} {dir : Path} {n : Nat}
    {stack : Stack (.load reference dir)} {m m' : Machine} {q : Pause Value}
    (hl : m.loader.Ledger stack.loading) (hs : stack.Sound m.loader.Explains)
    (h : (Plan.ofLoad reference dir).advance m = some (q, m')) :
    Continues m.loader (q.moment n (.load reference dir) stack m') := by
  let sought := Plan.seeking reference dir m
  have hsought : sought.loader.Ledger stack.loading := hl.congr rfl rfl rfl
  have hprec : m.loader.Precedes sought.loader := .note _ _
  cases hres : m.loader.resolve reference dir with
  | error fault =>
    rw [Plan.advance_ofLoad_notFound hres] at h
    obtain ⟨rfl, rfl⟩ := Prod.mk.inj (Option.some.inj h)
    obtain ⟨base, tried, rfl⟩ := resolve_error hres
    refine ⟨⟨hsought, hs.mono hprec.explains, fun e he => ?_⟩, hprec, nofun⟩
    cases he
    exact ⟨nofun, fun _ => rfl⟩
  | ok id =>
    cases hfind : m.loader.registry.find? id with
    | some u =>
      rw [Plan.advance_ofLoad_hit hres hfind] at h
      obtain ⟨rfl, rfl⟩ := Prod.mk.inj (Option.some.inj h)
      have hprec' : m.loader.Precedes (sought.reuse id).loader :=
        hprec.trans (.of_modules_eq rfl (List.suffix_cons _ _))
      exact ⟨⟨hsought.congr rfl rfl rfl, hs.mono hprec'.explains, nofun⟩, hprec', nofun⟩
    | none =>
      obtain ⟨henrolled, hprec'⟩ := ledger_enrol hsought hfind
      replace hprec' := hprec.trans hprec'
      cases hstrategy : m.loader.strategyFor? id with
      | none =>
        have hs' : (sought.enrol id).loader.strategyFor? (Module.create m.heap id).1.id = none :=
          hstrategy
        rw [Plan.advance_ofLoad_new hres hfind, Plan.advance_loadNew_unknown hs'] at h
        generalize (Module.create m.heap id).1.extension?.getD "" = extension at h
        obtain ⟨rfl, rfl⟩ := Prod.mk.inj (Option.some.inj h)
        have hsettle := hprec'.trans (henrolled.precedes_settle .failed)
        refine ⟨⟨henrolled.settle nofun, hs.mono hsettle.explains, fun e he => ?_⟩, hsettle, nofun⟩
        cases he
        exact ⟨nofun, fun _ => rfl⟩
      | some s =>
        have hs' : (sought.enrol id).loader.strategyFor? (Module.create m.heap id).1.id = some s :=
          hstrategy
        rw [Plan.advance_ofLoad_new hres hfind, Plan.advance_loadNew_started hs'] at h
        obtain ⟨rfl, rfl⟩ := Prod.mk.inj (Option.some.inj h)
        have hnote := hprec'.trans (.note _ (.started id s))
        have hnew (p : Path) (hp : p ∈ (sought.enrol id).loader.started) : id.same p = false := by
          obtain ⟨v, hv, rfl⟩ := hsought.startedIn p hp
          rw [Path.same_comm]
          exact Registry.find?_eq_none.mp hfind v hv
        obtain ⟨hu, -⟩ := henrolled.mem_of_active (List.mem_cons_self ..)
        refine ⟨⟨henrolled.start hu hnew s, ⟨.module, hs.mono hnote.explains⟩, ?_⟩, hnote, ?_⟩
        · rintro u s' ⟨⟩
          rfl
        · rintro _ u s' _ _ ⟨⟩
          rfl

/-- What a loading does to the books when the strategy of its module has ended. -/
theorem continues_conclude {u : Module} {reference : String} {dir : Path} {n : Nat}
    {stack : Stack (.load reference dir)} {r : Except Exception Unit} {m m' : Machine}
    {q : Pause Value} (hl : m.loader.Ledger (u :: stack.loading))
    (hs : stack.Sound m.loader.Explains) (hr : ∀ e, r = .error e → m.loader.Explains e)
    (h : (Plan.conclude u r).advance m = some (q, m')) :
    Continues m.loader (q.moment n (.load reference dir) stack m') := by
  cases r with
  | ok a =>
    rw [Plan.advance_conclude_ok] at h
    obtain ⟨rfl, rfl⟩ := Prod.mk.inj (Option.some.inj h)
    have hprec := hl.precedes_settle .loaded
    exact ⟨⟨hl.settle nofun, hs.mono hprec.explains, nofun⟩, hprec, nofun⟩
  | error e =>
    rw [Plan.advance_conclude_error] at h
    obtain ⟨rfl, rfl⟩ := Prod.mk.inj (Option.some.inj h)
    have hprec := hl.precedes_settle .failed
    refine ⟨⟨hl.settle nofun, hs.mono hprec.explains, fun e' he => ?_⟩, hprec, nofun⟩
    cases he
    cases e with
    | thrown v =>
      obtain ⟨hu, -⟩ := hl.mem_of_active (List.mem_cons_self ..)
      refine ⟨⟨u.withState u.id .failed, List.mem_map_of_mem hu, Module.withState_id, ?_⟩,
        fun _ => rfl⟩
      rw [Module.withState_of_same (Path.same_refl _)]
    | load fault => exact ⟨hr _ rfl, fun _ => rfl⟩
    | uncaught path v => exact ⟨hprec.explains _ (hr _ rfl), fun _ => rfl⟩

/-- Every step keeps the books in order, and takes nothing back. -/
theorem continues_step {a b : Moment} (ha : a.Sound) (h : a.step = some b) :
    Continues a.machine.loader b := by
  match a with
  | resting _ | entering 0 _ _ _ | leaving _ _ (.bottom _) _ => contradiction
  | entering (n + 1) t stack m =>
    obtain ⟨hl, hs, -⟩ := ha
    obtain ⟨⟨q, m'⟩, hq, rfl⟩ := Option.map_eq_some_iff.mp h
    by_cases ht : t.isLoad = true
    · cases t with
      | load reference dir => exact continues_load hl hs hq
      | _ => cases ht
    · rw [Bool.not_eq_true] at ht
      obtain ⟨hreads, hfits⟩ := Plan.ofTask_fits m.loader.explains_own ht hq
      exact continues_reads hreads ht hfits hl hs
  | leaving s r (.frame n t next below) m =>
    obtain ⟨hl, ⟨hw, hs⟩, hr⟩ := ha
    obtain ⟨⟨q, m'⟩, hq, rfl⟩ := Option.map_eq_some_iff.mp h
    replace hr (e : Exception) (he : r = .error e) : m.loader.Explains e := (hr e he).1
    by_cases ht : t.isLoad = true
    · cases hw with
      | module => exact continues_conclude hl hs hr hq
      | plain htask => cases htask.symm.trans ht
      | _ => cases ht
    · rw [Bool.not_eq_true] at ht
      obtain ⟨hreads, hfits⟩ := hw.fits m.loader.explains_own ht hr hq
      replace hl : m.loader.Ledger below.loading := by
        simpa only [Stack.loading, ht, Bool.false_eq_true, if_false, List.nil_append] using hl
      exact continues_reads hreads ht hfits hl hs

theorem continues_follows {a b : Moment} (ha : a.Sound) (h : Follows a b) :
    Continues a.machine.loader b := by
  cases h with
  | step h => exact continues_step ha h
  | returned => exact ⟨ha.1, .refl _, nofun⟩
  | @meddled m m' hr hj =>
    have hm : m'.loader.registry.modules = m.loader.registry.modules := by rw [hr]
    refine ⟨Loader.Ledger.congr ha hm ?_ ?_, .of_modules_eq hm ?_, nofun⟩
    · rw [Loader.started, hj, Loader.started]
    · rw [Loader.settled, hj, Loader.settled]
    · simp only [machine, hj, List.suffix_refl]
  | requested ht =>
    refine ⟨⟨ha, ht, ?_⟩, .refl _, ?_⟩
    · rintro u s rfl
      cases ht
    · rintro _ u s _ _ ⟨⟩
      cases ht

theorem Leads.sound {a b : Moment} (h : Leads a b) (ha : a.Sound) :
    b.Sound ∧ a.machine.loader.Precedes b.machine.loader := by
  induction h with
  | refl => exact ⟨ha, .refl _⟩
  | tail _ hlast ih =>
    obtain ⟨hb, hprec⟩ := ih
    have hc := continues_follows hb hlast
    exact ⟨hc.sound, hprec.trans hc.precedes⟩

theorem Reachable.sound {a : Moment} (h : Reachable a) : a.Sound := by
  obtain ⟨m, hm, hj, hleads⟩ := h
  have hrest : Sound (.resting m) := Loader.Ledger.empty hm hj
  exact (hleads.sound hrest).1

theorem Reachable.leads {a b : Moment} (h : Reachable a) (hab : Leads a b) : Reachable b := by
  obtain ⟨m, hm, hj, hleads⟩ := h
  exact ⟨m, hm, hj, hleads.trans hab⟩

/-- Moments that follow without the host follow in the life of the loader. -/
theorem Steps.leads {a b : Moment} (h : Steps a b) : Leads a b :=
  Relation.ReflTransGen.mono (fun _ _ => Follows.step) _ _ h

/-- A request of the host, from the machine at rest to the end of what it asked for. -/
theorem leads_of_run {m m' : Machine} {n : Nat} {t : Task} (ht : t.isStart = false)
    {r : Except Exception t.Result} (h : m.run (Evaluate.perform n t) = some (r, m')) :
    Leads (.resting m) (.leaving t r (.bottom t) m') :=
  .head (.requested ht) (steps_of_perform h _).leads

/-- A module that the host loads: the moments, and the exception that becomes its failure. -/
theorem leads_of_loadIn {m m' : Machine} {n : Nat} {reference : String} {dir : Path}
    {r : Except LoadFault Value} (h : m.loadIn n reference dir = some (r, m')) :
    ∃ r' : Except Exception Value,
      Leads (.resting m) (.leaving (.load reference dir) r' (.bottom _) m') ∧
        r = r'.mapError fun e => e.toLoadFault m'.heap dir := by
  have hrested : Leads (.resting m) (.resting (m.rested m.loader.callDepth)) :=
    .single (.meddled rfl rfl)
  unfold Machine.loadIn at h
  split at h
  · contradiction
  · rename_i v m₁ hrun
    obtain ⟨rfl, rfl⟩ := Prod.mk.inj (Option.some.inj h)
    exact ⟨.ok v, hrested.trans (leads_of_run rfl hrun), rfl⟩
  · rename_i e m₁ hrun
    obtain ⟨rfl, rfl⟩ := Prod.mk.inj (Option.some.inj h)
    exact ⟨.error e, hrested.trans (leads_of_run rfl hrun), rfl⟩

/-- A machine that has loaded modules for its host is one that the life of its loader leads to. -/
theorem reachable_of_loadIn {m m' : Machine} {n : Nat} {reference : String} {dir : Path}
    {r : Except LoadFault Value} (hm : Reachable (.resting m))
    (h : m.loadIn n reference dir = some (r, m')) : Reachable (.resting m') := by
  obtain ⟨r', hleads, -⟩ := leads_of_loadIn h
  exact hm.leads (hleads.tail .returned)

end Moment

/-! ### A life to look at -/

namespace Sample

/-- A data file, a script that throws, a script that catches what that one throws, and a file that
no strategy is for. -/
def files : FileSystem :=
  ⟨⟨[], 0⟩, [(["data.json"], .file "null".toUTF8), (["throws.js"], .file "throw null".toUTF8),
    (["catches.js"], .file "try \x7b require('./throws'); \x7d catch (e) \x7b \x7d".toUTF8),
    (["unknown"], .file "".toUTF8)]⟩

def machine : Machine :=
  .create (.create files .standard) (.kept "") standardCallDepth

theorem reachable : Moment.Reachable (.resting machine) :=
  ⟨machine, rfl, rfl, .refl⟩

theorem eq_ok_of_toOption {α ε : Type} {x : Except ε α} {a : α} (h : x.toOption = some a) :
    x = .ok a := by
  cases x with
  | ok b => exact congrArg Except.ok (Option.some.inj h)
  | error e => contradiction

/-- What can be seen of the machine after one of the files is loaded. -/
theorem reachable_of_loaded (n : Nat) (reference : String) (p : Machine → Bool)
    (h : (machine.loadIn n reference ⟨"/"⟩).any (fun r => p r.2) = true) :
    ∃ m, Moment.Reachable (.resting m) ∧ p m = true := by
  obtain ⟨⟨r, m⟩, hload, hp⟩ := (Option.any_eq_true ..).mp h
  exact ⟨m, Moment.reachable_of_loadIn reachable hload, hp⟩

/-- What came of it is that `null` was thrown. -/
def throwsNull {α : Type} : Except Exception α → Bool
  | .error (.thrown .null) => true
  | _ => false

theorem eq_of_throwsNull {α : Type} {r : Except Exception α} (h : throwsNull r = true) :
    r = .error (.thrown .null) := by
  unfold throwsNull at h
  split at h
  · rfl
  · contradiction

end Sample

end ModuleLoader
