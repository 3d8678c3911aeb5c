import ModuleLoader.Proofs.Isolation

/-! What keeps a module from being run: no strategy is there for it, or its file cannot be read, or
is not what its strategy takes. Such an obstacle can be told from the files and the strategies
alone, and it ends the loading at once: no script has a part in that. -/
namespace ModuleLoader

open Script

/-- The module that is told to be in the way of its own loading. -/
def LoadFault.subject? : LoadFault → Option Path
  | unreadable path _ | invalidJson path _ | malformed path _ | unknownExtension path _ => some path
  | notFound _ _ _ | uncaught _ _ => none

/-- What a strategy has against the text of a module, if something. -/
def Strategy.objection? (id : Path) (text : String) : Strategy → Option LoadFault
  | json =>
    match Json.read (Evaluate.withoutByteOrderMark text) with
    | .error e => some (.invalidJson id e)
    | .ok _ => none
  | script =>
    match Program.ofSource
      (Evaluate.withoutInterpreterLine (Evaluate.withoutByteOrderMark text)) with
    | .error e => some (.malformed id e)
    | .ok _ => none

namespace Loader

/-- What keeps a module from being run, if something does. -/
def obstacle? (l : Loader) (id : Path) : Option LoadFault :=
  match l.strategyFor? id with
  | .none => some (.unknownExtension id ((id.extension?.map ("." ++ ·)).getD ""))
  | some s =>
    match l.files.readText id with
    | .error fault => some (.unreadable id fault)
    | .ok text => s.objection? id text

variable {l l' : Loader} {id : Path}

theorem SameOptions.strategyFor?_eq (h : l.SameOptions l') (id : Path) :
    l.strategyFor? id = l'.strategyFor? id := by
  rw [strategyFor?, strategyFor?, h.strategies]

theorem SameOptions.obstacle?_eq (h : l.SameOptions l') (id : Path) :
    l.obstacle? id = l'.obstacle? id := by
  rw [obstacle?, obstacle?, h.strategyFor?_eq, h.files]

theorem obstacle?_of_unknown (h : l.strategyFor? id = .none) :
    l.obstacle? id = some (.unknownExtension id ((id.extension?.map ("." ++ ·)).getD "")) := by
  rw [obstacle?, h]

theorem obstacle?_of_error {s : Strategy} (h : l.strategyFor? id = some s) {fault : FileFault}
    (hread : l.files.readText id = .error fault) :
    l.obstacle? id = some (.unreadable id fault) := by
  simp only [obstacle?, h, hread]

theorem obstacle?_of_ok {s : Strategy} (h : l.strategyFor? id = some s) {text : String}
    (hread : l.files.readText id = .ok text) : l.obstacle? id = s.objection? id text := by
  simp only [obstacle?, h, hread]

end Loader

namespace Plan

open Evaluate

variable {m : Machine} {u : Module} {s : Strategy} {fault : LoadFault}

/-- An obstacle ends the work of the strategy: nothing is done but that the file is read. -/
theorem advance_ofStart_of_obstacle (hs : m.loader.strategyFor? u.id = some s)
    (h : m.loader.obstacle? u.id = some fault) :
    (ofStart u s).advance m = some (.ended (.error (.load fault)), m.note (.read u.id)) := by
  cases hread : m.loader.files.readText u.id with
  | error e =>
    rw [Loader.obstacle?_of_error hs hread] at h
    obtain rfl := Option.some.inj h
    have hsource := run_sourceOf_error hread
    cases s with
    | json =>
      show (act (loadJson u) done).advance m = _
      rw [advance, loadJson, Machine.run_bind_error hsource]
    | script =>
      show (startScript u).advance m = _
      rw [startScript_eq, advance, hsource]
  | ok text =>
    rw [Loader.obstacle?_of_ok hs hread] at h
    have hsource := run_sourceOf_ok hread
    cases s with
    | json =>
      show (act (loadJson u) done).advance m = _
      rw [advance, loadJson, Machine.run_bind_ok hsource]
      cases hjson : Json.read (withoutByteOrderMark text) with
      | error e =>
        simp only [Strategy.objection?, hjson, Option.some.injEq] at h
        subst h
        rfl
      | ok j => simp only [Strategy.objection?, hjson, reduceCtorEq] at h
    | script =>
      show (startScript u).advance m = _
      rw [startScript_eq, advance_act hsource]
      cases hprogram : Program.ofSource (withoutInterpreterLine (withoutByteOrderMark text)) with
      | error e =>
        simp only [Strategy.objection?, hprogram, Option.some.injEq] at h
        subst h
        rw [advance_act (run_compile_error hprogram)]
        rfl
      | ok p => simp only [Strategy.objection?, hprogram, reduceCtorEq] at h

end Plan

/-! ### A loading that an obstacle ends -/

/-- From one machine to the other a module was registered and its loading failed. The look-up was
counted as a miss; nothing else was done. -/
structure Machine.Refuses (id : Path) (m m' : Machine) : Prop where
  heap : m'.heap = (Module.create m.heap id).2
  output : m'.output = m.output
  depth : m'.depth = m.depth
  maxDepth : m'.maxDepth = m.maxDepth
  deepest : m'.deepest = m.deepest
  options : m.loader.SameOptions m'.loader
  modules : m'.loader.registry.modules =
    m.loader.registry.modules ++ [{ (Module.create m.heap id).1 with state := .failed }]
  hits : m'.loader.registry.hits = m.loader.registry.hits
  misses : m'.loader.registry.misses = m.loader.registry.misses + 1

/-- A module of a new identifier is the only one that its settling concerns. -/
theorem Registry.map_withState_new {modules : List Module} {u : Module} {id : Path}
    {state : ModuleState} (hnew : ∀ v ∈ modules, v.id.same id = false) (hid : u.id = id) :
    (modules ++ [u]).map (fun v => v.withState id state) = modules ++ [{ u with state }] := by
  subst hid
  have hothers : modules.map (fun v => v.withState u.id state) = modules := by
    conv_rhs => rw [← List.map_id modules]
    exact List.map_congr_left fun v hv => Module.withState_of_not_same (hnew v hv)
  rw [List.map_append, hothers, List.map_singleton, Module.withState_of_same (Path.same_refl _)]

theorem Machine.refuses_settle {m : Machine} {id : Path}
    (hnew : m.loader.registry.find? id = none) (journal : List Event) :
    m.Refuses id
      ({ m.enrol id with loader := { (m.enrol id).loader with journal } }.settle id .failed) where
  heap := rfl
  output := rfl
  depth := rfl
  maxDepth := rfl
  deepest := rfl
  options := ⟨rfl, rfl, rfl, rfl, rfl⟩
  modules := by
    have hid : (Module.create m.heap id).1.id = id := rfl
    exact Registry.map_withState_new (Registry.find?_eq_none.mp hnew) hid
  hits := rfl
  misses := rfl

namespace Moment

/-- The task on top is one that scripts consist of. -/
def RunsScript : Moment → Prop
  | resting _ => False
  | entering _ t _ _ | leaving t _ _ _ => t.isLoad = false ∧ t.isStart = false

/-- What holds of a moment and of all that come after its next one holds of all that come after
it. -/
theorem Steps.of_step {P : Moment → Prop} {a b c : Moment} (h : Steps a c)
    (hstep : a.step = some b) (ha : P a) (hb : Steps b c → P c) : P c := by
  obtain rfl | ⟨b', hb', hsteps⟩ := h.cases_head
  · exact ha
  · obtain rfl := Option.some.inj (hstep.symm.trans hb')
    exact hb hsteps

theorem Steps.of_end {P : Moment → Prop} {a c : Moment} (h : Steps a c) (hstep : a.step = none)
    (ha : P a) : P c := by
  obtain rfl | ⟨b, hb, -⟩ := h.cases_head
  · exact ha
  · rw [hstep] at hb
    contradiction

variable {m : Machine} {reference : String} {dir id : Path} {fault : LoadFault} {n : Nat}

theorem step_load_unknown {stack : Stack (.load reference dir)}
    (hres : m.loader.resolve reference dir = .ok id)
    (hnew : m.loader.registry.find? id = none) (hs : m.loader.strategyFor? id = none) :
    (entering (n + 1) (.load reference dir) stack m).step =
      some (.leaving (.load reference dir) (.error (.load
          (.unknownExtension id ((id.extension?.map ("." ++ ·)).getD "")))) stack
        (((Plan.seeking reference dir m).enrol id).settle id .failed)) := by
  have hs' : ((Plan.seeking reference dir m).enrol id).loader.strategyFor?
    (Module.create m.heap id).1.id = none := hs
  have hadvance := (Plan.advance_ofLoad_new hres hnew).trans (Plan.advance_loadNew_unknown hs')
  exact congrArg (Option.map fun q => q.1.moment n _ stack q.2) hadvance

theorem step_load_started {stack : Stack (.load reference dir)} {s : Strategy}
    (hres : m.loader.resolve reference dir = .ok id)
    (hnew : m.loader.registry.find? id = none) (hs : m.loader.strategyFor? id = some s) :
    (entering (n + 1) (.load reference dir) stack m).step =
      some (.entering n (.start (Module.create m.heap id).1 s)
        (.frame n (.load reference dir) (Plan.conclude (Module.create m.heap id).1) stack)
        (Plan.beginning reference dir id s m)) := by
  have hs' : ((Plan.seeking reference dir m).enrol id).loader.strategyFor?
    (Module.create m.heap id).1.id = some s := hs
  have hadvance := (Plan.advance_ofLoad_new hres hnew).trans (Plan.advance_loadNew_started hs')
  exact congrArg (Option.map fun q => q.1.moment n _ stack q.2) hadvance

theorem step_start_of_obstacle {u : Module} {s : Strategy} {stack : Stack (.start u s)}
    (hs : m.loader.strategyFor? u.id = some s) (h : m.loader.obstacle? u.id = some fault) :
    (entering (n + 1) (.start u s) stack m).step =
      some (.leaving (.start u s) (.error (.load fault)) stack (m.note (.read u.id))) := by
  have hadvance : (Plan.ofTask n (.start u s)).advance m = _ :=
    Plan.advance_ofStart_of_obstacle hs h
  exact congrArg (Option.map fun q => q.1.moment n _ stack q.2) hadvance

theorem step_conclude_error {u : Module} {s : Strategy} {stack : Stack (.load reference dir)} :
    (leaving (.start u s) (.error (.load fault))
        (.frame n (.load reference dir) (Plan.conclude u) stack) m).step =
      some (.leaving (.load reference dir) (.error (.load fault)) stack
        (m.settle u.id .failed)) := by
  rw [step, Plan.advance_conclude_error]
  rfl

theorem step_leaving_bottom {t : Task} {r : Except Exception t.Result} :
    (leaving t r (.bottom t) m).step = none := by
  rw [step]

theorem step_entering_zero {t : Task} {stack : Stack t} : (entering 0 t stack m).step = none := by
  rw [step]

/-- The loading of a module ends at once: no script runs, and the module is refused. -/
def Declines (reference : String) (dir id : Path) (fault : LoadFault) (m : Machine) (a : Moment) :
    Prop :=
  ¬a.RunsScript ∧ ∀ r m', a = .leaving (.load reference dir) r (.bottom _) m' →
    r = .error (.load fault) ∧ m.Refuses id m'

theorem declines_entering {t : Task} {k : Nat} {stack : Stack t} {m₁ : Machine}
    (ht : t.isLoad = true ∨ t.isStart = true) :
    Declines reference dir id fault m (.entering k t stack m₁) := by
  constructor
  · rintro ⟨hload, hstart⟩
    simp only [hload, hstart, Bool.false_eq_true, or_self] at ht
  · intro r m' hend
    cases hend

theorem declines_leaving_start {u : Module} {s : Strategy} {r : Except Exception Unit}
    {stack : Stack (.start u s)} {m₁ : Machine} :
    Declines reference dir id fault m (.leaving (.start u s) r stack m₁) := by
  constructor
  · rintro ⟨-, hstart⟩
    cases hstart
  · intro r m' hend
    cases hend

theorem declines_end {m₁ : Machine} (h : m.Refuses id m₁) : Declines reference dir id fault m
    (.leaving (.load reference dir) (.error (.load fault)) (.bottom _) m₁) := by
  constructor
  · rintro ⟨hload, -⟩
    cases hload
  · intro r m' hend
    cases hend
    exact ⟨rfl, h⟩

/-- The moments of a loading that an obstacle ends: the loading itself and the start of its module,
and no script. -/
theorem Steps.of_obstacle {a : Moment} (hres : m.loader.resolve reference dir = .ok id)
    (hnew : m.loader.registry.find? id = none) (hobstacle : m.loader.obstacle? id = some fault)
    (h : Steps (.entering n (.load reference dir) (.bottom _) m) a) :
    a.Declines reference dir id fault m := by
  have hloading (k : Nat) : Declines reference dir id fault m
      (.entering k (.load reference dir) (.bottom _) m) := declines_entering (.inl rfl)
  match n with
  | 0 => exact h.of_end step_entering_zero (hloading 0)
  | n + 1 =>
    cases hs : m.loader.strategyFor? id with
    | none =>
      rw [Loader.obstacle?_of_unknown hs] at hobstacle
      obtain rfl := Option.some.inj hobstacle
      exact h.of_step (step_load_unknown hres hnew hs) (hloading _) fun h =>
        h.of_end step_leaving_bottom (declines_end (Machine.refuses_settle hnew _))
    | some s =>
      refine h.of_step (step_load_started hres hnew hs) (hloading _) fun h => ?_
      match n with
      | 0 => exact h.of_end step_entering_zero (declines_entering (.inr rfl))
      | n + 1 =>
        have hs' : (Plan.beginning reference dir id s m).loader.strategyFor?
          (Module.create m.heap id).1.id = some s := hs
        have hobstacle' : (Plan.beginning reference dir id s m).loader.obstacle?
          (Module.create m.heap id).1.id = some fault := hobstacle
        refine h.of_step (step_start_of_obstacle hs' hobstacle') (declines_entering (.inr rfl))
          fun h => ?_
        refine h.of_step step_conclude_error declines_leaving_start fun h => ?_
        exact h.of_end step_leaving_bottom (declines_end (Machine.refuses_settle hnew _))

end Moment

end ModuleLoader
