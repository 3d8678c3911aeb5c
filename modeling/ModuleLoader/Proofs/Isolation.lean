import ModuleLoader.Proofs.Life
import ModuleLoader.Proofs.Reruns

/-! Units that keep to themselves. A script that uses none of the names under which modules find
what they share can neither leave anything for a script that is loaded after it nor find anything
that one before it left: its loading goes as it would in a new realm. -/
namespace ModuleLoader

open Script

/-! ### Modules on twin heaps -/

structure Module.Twin (k : Relocation) (u u' : Module) : Prop where
  id : u.id = u'.id
  object : k.objects.Twin u.object u'.object

namespace Script

variable {k : Relocation} {h h' : Heap}

theorem Heap.Twin.create (hh : h.Twin k h') (id : Path) :
    Module.Twin k (Module.create h id).1 (Module.create h' id).1 ∧
      (Module.create h id).2.Twin k (Module.create h' id).2 := by
  have hexports := hh.newObject .nil
  have hdata : Properties.Twin k
      [("id", .string id.text), ("exports", .object h.objects.size), ("filename", .string id.text),
        ("path", .string id.directory.text), ("loaded", .bool false)]
      [("id", .string id.text), ("exports", .object h'.objects.size), ("filename", .string id.text),
        ("path", .string id.directory.text), ("loaded", .bool false)] :=
    .cons ⟨rfl, .string _⟩ <| .cons ⟨rfl, .object hh.objects.next⟩ <| .cons ⟨rfl, .string _⟩ <|
      .cons ⟨rfl, .string _⟩ <| .cons ⟨rfl, .bool _⟩ .nil
  exact ⟨⟨rfl, hexports.objects.next⟩, hexports.newObject hdata⟩

theorem Heap.Twin.exposed (hh : h.Twin k h') {u u' : Module} (hu : u.Twin k u') :
    (u.exposed h).Twin k (u'.exposed h') :=
  rel_getD ((hh.object hu.object).get? "exports") .undefined

theorem Heap.Twin.announce (hh : h.Twin k h') {u u' : Module} (hu : u.Twin k u') :
    (u.announce h).Twin k (u'.announce h') :=
  hh.setProperty hu.object "loaded" (.bool true)

theorem Heap.closure_newClosure (h : Heap) (c : Closure) :
    (h.newClosure c).2.closure (h.newClosure c).1 = c := by
  simp [Heap.newClosure, Heap.closure]

theorem Frame.Twin.insert_shared {f f' : Frame} (h : Frame.Twin k f f') (name : String)
    (hname : name ∈ sharedNames) (b b' : Binding) :
    Frame.Twin k (f.insert name b) (f'.insert name b') := by
  intro other hother
  rw [Dict.get?_insert, Dict.get?_insert, if_neg, if_neg]
  · exact h other hother
  · exact fun heq => hother (heq ▸ hname)
  · exact fun heq => hother (heq ▸ hname)

/-- The frame in which the source of a module is run. What it calls `require` need not have a
twin. -/
theorem twin_moduleFrame {u u' : Module} (hu : u.Twin k u') {exports exports' : Value}
    (he : exports.Twin k exports') (require require' : Value) :
    Frame.Twin k
      (Evaluate.callFrame exports Evaluate.moduleParams [exports, require, .object u.object,
        .string u.id.text, .string u.directory.text])
      (Evaluate.callFrame exports' Evaluate.moduleParams [exports', require', .object u'.object,
        .string u'.id.text, .string u'.directory.text]) := by
  have hexports := (Frame.Twin.empty.insert "this" he false).insert "exports" he true
  have hrequire := hexports.insert_shared "require" (by decide) ⟨require, true⟩ ⟨require', true⟩
  have hmodule := hrequire.insert "module" (.object hu.object) true
  have hname := hmodule.insert "__filename" (.string u.id.text) true
  rw [Module.directory, Module.directory, ← hu.id]
  exact hname.insert "__dirname" (.string u.id.directory.text) true

end Script

/-! ### Scripts that keep to themselves -/

/-- If the file is a script, it uses none of the names of what is shared. -/
def Loader.Discreet (l : Loader) (id : Path) : Prop :=
  ∀ text p, l.files.readText id = .ok text →
    Program.ofSource (Evaluate.withoutInterpreterLine (Evaluate.withoutByteOrderMark text)) =
        .ok p →
      ∀ s ∈ p.statements, (Node.stmt s).IsDiscreet

instance (l : Loader) (id : Path) : Decidable (l.Discreet id) :=
  match hread : l.files.readText id with
  | .error _ => isTrue fun text p h => absurd (hread.symm.trans h) nofun
  | .ok text =>
    match hp : Program.ofSource
      (Evaluate.withoutInterpreterLine (Evaluate.withoutByteOrderMark text)) with
    | .error _ => isTrue fun text' p h h' => by
      obtain rfl := Except.ok.inj (hread.symm.trans h)
      exact absurd (hp.symm.trans h') nofun
    | .ok p => decidable_of_iff (∀ s ∈ p.statements, (Node.stmt s).IsDiscreet) ⟨
      fun hd text' p' h h' => by
        obtain rfl := Except.ok.inj (hread.symm.trans h)
        obtain rfl := Except.ok.inj (hp.symm.trans h')
        exact hd,
      fun hd => hd text p hread hp⟩

namespace Plan

open Evaluate

variable {k : Relocation} {m m' : Machine} {u u' : Module}

theorem startScript_eq (u : Module) :
    startScript u = act (sourceOf u.id) fun source => act (compile source) fun
      | .error e => act (Run.stop (.load (.malformed u.id e))) done
      | .ok f => act Run.heap fun h =>
        ask (.call f (u.exposed h) [u.exposed h, .native (.require u.id), .object u.object,
          .string u.id.text, .string u.directory.text]) fun _ => done () :=
  rfl

theorem run_compile_error {source : String} {e : SyntaxFault}
    (h : Program.ofSource (withoutInterpreterLine source) = .error e) :
    m.run (compile source) = some (.ok (.error e), m) := by
  unfold compile
  rw [h]
  rfl

/-- The machine in which a source is compiled. -/
def compiled (p : Program) (m : Machine) : Machine :=
  { m with heap := (m.heap.newClosure ⟨moduleFunction p, globalScope⟩).2 }

theorem run_compile_ok {source : String} {p : Program}
    (h : Program.ofSource (withoutInterpreterLine source) = .ok p) :
    m.run (compile source) =
      some (.ok (.ok (.function m.heap.closures.size)), compiled p m) := by
  unfold compile
  rw [h]
  rfl

theorem run_sourceOf_ok {id : Path} {text : String} (h : m.loader.files.readText id = .ok text) :
    m.run (sourceOf id) = some (.ok (withoutByteOrderMark text), m.note (.read id)) := by
  unfold sourceOf
  rw [Machine.run_bind_ok (Machine.run_modifyLoader _), Machine.run_bind_ok Machine.run_machine]
  simp only [Loader.note, h]
  rfl

theorem run_sourceOf_error {id : Path} {fault : FileFault}
    (h : m.loader.files.readText id = .error fault) :
    m.run (sourceOf id) = some (.error (.load (.unreadable id fault)), m.note (.read id)) := by
  unfold sourceOf
  rw [Machine.run_bind_ok (Machine.run_modifyLoader _), Machine.run_bind_ok Machine.run_machine]
  simp only [Loader.note, h]
  rfl

/-- The call of what a module's source is compiled to next. -/
def moduleCall (u : Module) (h : Heap) : Task :=
  .call (.function h.closures.size) (u.exposed h) [u.exposed h, .native (.require u.id),
    .object u.object, .string u.id.text, .string u.directory.text]

/-- The start of a script that can be read comes down to the call of what it is compiled to. -/
theorem run_startScript {perform : (t : Task) → Run t.Result} {text : String} {p : Program}
    (h : m.loader.files.readText u.id = .ok text)
    (hp : Program.ofSource (withoutInterpreterLine (withoutByteOrderMark text)) = .ok p) :
    m.run ((startScript u).carryOut perform) =
      (compiled p (m.note (.read u.id))).run
        (perform (moduleCall u m.heap) >>= fun _ => pure ()) := by
  rw [startScript_eq]
  simp only [carryOut]
  rw [Machine.run_bind_ok (run_sourceOf_ok h), Machine.run_bind_ok (run_compile_ok hp)]
  rfl

theorem run_startScript_unreadable {perform : (t : Task) → Run t.Result} {fault : FileFault}
    (h : m.loader.files.readText u.id = .error fault) :
    m.run ((startScript u).carryOut perform) =
      some (.error (.load (.unreadable u.id fault)), m.note (.read u.id)) := by
  rw [startScript_eq]
  simp only [carryOut]
  rw [Machine.run_bind_error (run_sourceOf_error h)]

theorem run_startScript_malformed {perform : (t : Task) → Run t.Result} {text : String}
    {e : SyntaxFault} (h : m.loader.files.readText u.id = .ok text)
    (he : Program.ofSource (withoutInterpreterLine (withoutByteOrderMark text)) = .error e) :
    m.run ((startScript u).carryOut perform) =
      some (.error (.load (.malformed u.id e)), m.note (.read u.id)) := by
  rw [startScript_eq]
  simp only [carryOut]
  rw [Machine.run_bind_ok (run_sourceOf_ok h), Machine.run_bind_ok (run_compile_error he)]
  rfl

/-- A program that speaks of nothing shared is run alike as the body of twin modules. -/
theorem ends_moduleCall {D : Doubling} {n : Nat} {p : Program}
    (hglobals : globalFrame < D.relocation.frames.fixed) (hm : D.Holds m m')
    (hu : u.Twin D.relocation u') (hp : ∀ s ∈ p.statements, (Node.stmt s).IsDiscreet) :
    D.pairing.Ends (Value.Twin D.relocation)
      ((compiled p m).run (perform n (moduleCall u m.heap)))
      ((compiled p m').run (perform n (moduleCall u' m'.heap))) := by
  have hc : Closure.Twin D.relocation ⟨moduleFunction p, globalScope⟩
      ⟨moduleFunction p, globalScope⟩ := ⟨rfl, hp, .cons (.fixed hglobals) .nil⟩
  have hcompiled : D.Holds (compiled p m) (compiled p m') :=
    { hm with heap := hm.heap.newClosure hc }
  have hparams :
      ((compiled p m).heap.closure m.heap.closures.size).literal.params = moduleParams :=
    congrArg (fun c : Closure => c.literal.params) (m.heap.closure_newClosure _)
  cases n with
  | zero => exact .cutOff
  | succ n =>
    refine ends_callFunction (D.performs n) hcompiled hm.heap.closures.next ?_
    rw [hparams]
    exact twin_moduleFrame hu (hm.heap.exposed hu) _ _

/-- A script that speaks of nothing shared is started alike on twins. -/
theorem ends_startScript {n : Nat} (hglobals : globalFrame < k.frames.fixed)
    (hm : Doubling.Holds ⟨k, m, m'⟩ m m') (hfiles : m.loader.files = m'.loader.files)
    (hu : u.Twin k u') (hd : m.loader.Discreet u.id) :
    (Doubling.pairing ⟨k, m.note (.read u.id), m'.note (.read u.id)⟩).Ends (fun _ _ => True)
      (m.run ((startScript u).carryOut (perform n)))
      (m'.run ((startScript u').carryOut (perform n))) := by
  have hnoted : Doubling.Holds ⟨k, m.note (.read u.id), m'.note (.read u.id)⟩
      (m.note (.read u.id)) (m'.note (.read u.id)) :=
    ⟨hm.heap, hm.depth, hm.maxDepth, ⟨rfl, rfl⟩, rfl, rfl⟩
  cases hread : m.loader.files.readText u.id with
  | error fault =>
    have hread' : m'.loader.files.readText u'.id = .error fault := by rw [← hfiles, ← hu.id, hread]
    rw [run_startScript_unreadable hread, run_startScript_unreadable hread', ← hu.id]
    exact .ended (.error (.load _)) hnoted
  | ok text =>
    have hread' : m'.loader.files.readText u'.id = .ok text := by rw [← hfiles, ← hu.id, hread]
    cases hp : Program.ofSource (withoutInterpreterLine (withoutByteOrderMark text)) with
    | error e =>
      rw [run_startScript_malformed hread hp, run_startScript_malformed hread' hp, ← hu.id]
      exact .ended (.error (.load _)) hnoted
    | ok p =>
      rw [run_startScript hread hp, run_startScript hread' hp, ← hu.id]
      exact (ends_moduleCall hglobals hnoted hu (hd text p hread hp)).bind fun _ _ _ =>
        Run.pairs_pure trivial

end Plan

/-! ### The loading of a unit -/

/-- The reference stands for a script that keeps to itself. -/
structure Loader.IsUnit (l : Loader) (reference : String) (dir id : Path) : Prop where
  resolved : l.resolve reference dir = .ok id
  script : l.strategyFor? id = some .script
  discreet : l.Discreet id

theorem Loader.SameOptions.isUnit {l l' : Loader} (h : l.SameOptions l') {reference : String}
    {dir id : Path} (hunit : l.IsUnit reference dir id) : l'.IsUnit reference dir id := by
  obtain ⟨hresolved, hscript, hdiscreet⟩ := hunit
  refine ⟨?_, ?_, ?_⟩
  · unfold resolve extensions
    rwa [← h.files, ← h.strategies]
  · unfold strategyFor?
    rwa [← h.strategies]
  · unfold Discreet
    rwa [← h.files]

/-- From one machine to the other one more module was registered. What the loader was built from is
the same, and nothing was printed. -/
structure Machine.Enrols (id : Path) (m m' : Machine) : Prop where
  options : m.loader.SameOptions m'.loader
  identifiers : m'.loader.registry.identifiers = m.loader.registry.identifiers ++ [id]
  output : m'.output = m.output

theorem Machine.Enrols.of_rested {id : Path} {m m' : Machine} {depth : Nat}
    (h : (m.rested depth).Enrols id m') : m.Enrols id m' :=
  ⟨h.options, h.identifiers, h.output⟩

/-- The loading of a unit, seen as a whole. -/
def Pairing.loads (k : Relocation) (id : Path) (m m' : Machine) : Pairing where
  holds m₁ m₁' := m₁.heap.Twin k m₁'.heap ∧ m.Enrols id m₁ ∧ m'.Enrols id m₁'
  throws := Exception.Twin k
  admits _ _ := False
  gives _ _ _ _ := False

namespace Plan

open Evaluate

variable {m m' : Machine} {reference : String} {dir id : Path}

/-- The machine in which a strategy is about to set to work on a new module. -/
def beginning (reference : String) (dir id : Path) (s : Strategy) (m : Machine) : Machine :=
  ((seeking reference dir m).enrol id).note (.started id s)

theorem run_ofLoad_new (perform : (t : Task) → Run t.Result) {s : Strategy}
    (h : m.loader.resolve reference dir = .ok id) (hnew : m.loader.registry.find? id = none)
    (hs : m.loader.strategyFor? id = some s) :
    m.run ((ofLoad reference dir).carryOut perform) =
      ((beginning reference dir id s m).run (perform (.start (Module.create m.heap id).1 s))).bind
        fun q => q.2.run ((conclude (Module.create m.heap id).1 q.1).carryOut perform) := by
  have hs' : ((seeking reference dir m).enrol id).loader.strategyFor?
    (Module.create m.heap id).1.id = some s := hs
  rw [run_carryOut, advance_ofLoad_new h hnew, advance_loadNew_started hs']
  rfl

theorem enrols_settle {m₁ : Machine} {s : Strategy}
    (hl : m₁.loader = ((beginning reference dir id s m).note (.read id)).loader)
    (ho : m₁.output = m.output) (state : ModuleState) (h : Heap) :
    m.Enrols id { m₁.settle id state with heap := h } where
  options := by
    have hbegun : m.loader.SameOptions m₁.loader := hl ▸ ⟨rfl, rfl, rfl, rfl, rfl⟩
    exact ⟨hbegun.files, hbegun.base, hbegun.callDepth, hbegun.strategies, hbegun.dropped⟩
  identifiers := by
    have hbegun : m₁.loader.registry.identifiers = m.loader.registry.identifiers ++ [id] := by
      rw [hl]
      exact List.map_append
    exact (Registry.identifiers_setState _ _ _).trans hbegun
  output := ho

theorem leaving_twin {k : Relocation} (id : Path) {e e' : Exception} (h : e.Twin k e') :
    (leaving id e).Twin k (leaving id e') := by
  cases h with
  | thrown hv => exact .uncaught id hv
  | load fault => exact .load fault
  | uncaught path hv => exact .uncaught path hv

/-- The end of a loading that was begun alike. -/
theorem ends_concluding {k : Relocation} {u u' : Module} {perform : (t : Task) → Run t.Result}
    {q q' : Option (Except Exception Unit × Machine)} (hu : u.Twin k u') (hid : u.id = id)
    (hstart : (Doubling.pairing ⟨k, (beginning reference dir id .script m).note (.read id),
      (beginning reference dir id .script m').note (.read id)⟩).Ends (fun _ _ => True) q q') :
    (Pairing.loads k id m m').Ends (Value.Twin k)
      (q.bind fun q => q.2.run ((conclude u q.1).carryOut perform))
      (q'.bind fun q => q.2.run ((conclude u' q.1).carryOut perform)) := by
  cases hstart with
  | cutOff => exact .cutOff
  | ended hr hm =>
    obtain ⟨hl, hl'⟩ := hm.loader
    obtain ⟨ho, ho'⟩ := hm.output
    rw [Option.bind_some, Option.bind_some, run_carryOut, run_carryOut]
    cases hr with
    | ok =>
      rw [advance_conclude_ok, advance_conclude_ok, ← hu.id, hid]
      have hannounced := hm.heap.announce hu
      exact .ended (.ok (hannounced.exposed hu))
        ⟨hannounced, enrols_settle hl ho .loaded _, enrols_settle hl' ho' .loaded _⟩
    | error he =>
      rw [advance_conclude_error, advance_conclude_error, ← hu.id, hid]
      exact .ended (.error (leaving_twin id he))
        ⟨hm.heap, enrols_settle hl ho .failed _, enrols_settle hl' ho' .failed _⟩

/-- A unit that two loaders of the same options have not met before is loaded alike by both. -/
theorem ends_load {n : Nat} (hrealm : m.heap.InRealm) (hrealm' : m'.heap.InRealm)
    (hdepth : m.depth = m'.depth) (hmaxDepth : m.maxDepth = m'.maxDepth)
    (hoptions : m.loader.SameOptions m'.loader) (hunit : m.loader.IsUnit reference dir id)
    (hnew : m.loader.registry.find? id = none) (hnew' : m'.loader.registry.find? id = none) :
    (Pairing.loads (.from hrealm hrealm') id m m').Ends (Value.Twin (.from hrealm hrealm'))
      (m.run (Evaluate.load n reference dir)) (m'.run (Evaluate.load n reference dir)) := by
  match n with
  | 0 => exact .cutOff
  | n + 1 =>
    have hunit' := hoptions.isUnit hunit
    have hload := run_ofLoad_new (perform n) hunit.resolved hnew hunit.script
    have hload' := run_ofLoad_new (perform n) hunit'.resolved hnew' hunit'.script
    show Pairing.Ends _ _ (m.run ((ofLoad reference dir).carryOut (perform n)))
      (m'.run ((ofLoad reference dir).carryOut (perform n)))
    rw [hload, hload']
    obtain ⟨hu, hcreated⟩ := (hrealm.twin hrealm').create id
    match n with
    | 0 => exact .cutOff
    | n + 1 =>
      have hbegun : Doubling.Holds ⟨.from hrealm hrealm', beginning reference dir id .script m,
          beginning reference dir id .script m'⟩ (beginning reference dir id .script m)
          (beginning reference dir id .script m') :=
        ⟨hcreated, hdepth, hmaxDepth, ⟨rfl, rfl⟩, rfl, rfl⟩
      have hglobals : globalFrame < (Relocation.from hrealm hrealm').frames.fixed :=
        Nat.zero_lt_one
      exact ends_concluding hu rfl (ends_startScript hglobals hbegun hoptions.files hu
        hunit.discreet)

end Plan

/-! ### What the host is told -/

/-- The host cannot tell the answers apart: they are the same fault, or values that are the same up
to a renaming of identities, under which all that these values lead to is the same as well. -/
inductive SameAnswer :
    Except LoadFault Value × Machine → Except LoadFault Value × Machine → Prop where
  | failed (fault : LoadFault) (m m' : Machine) : SameAnswer (.error fault, m) (.error fault, m')
  | exposed {k : Relocation} {v v' : Value} {m m' : Machine} (hv : v.Twin k v')
      (hheap : m.heap.Twin k m'.heap) : SameAnswer (.ok v, m) (.ok v', m')

theorem Exception.Twin.toLoadFault_eq {k : Relocation} {e e' : Exception} (he : e.Twin k e')
    {h h' : Heap} (hh : h.Twin k h') (fallback : Path) :
    e.toLoadFault h fallback = e'.toLoadFault h' fallback := by
  cases he with
  | thrown hv => exact congrArg (LoadFault.uncaught fallback) (hh.thrownText_eq hv)
  | load fault => rfl
  | uncaught path hv => exact congrArg (LoadFault.uncaught path) (hh.thrownText_eq hv)

namespace Machine

variable {m m' : Machine} {reference : String} {dir id : Path}

/-- The host gets the same answer for such a unit from two machines, whatever is in their realms. -/
theorem answers_loadIn (n : Nat) (hrealm : m.heap.InRealm) (hrealm' : m'.heap.InRealm)
    (hoptions : m.loader.SameOptions m'.loader) (hunit : m.loader.IsUnit reference dir id)
    (hnew : m.loader.registry.find? id = none) (hnew' : m'.loader.registry.find? id = none) :
    Option.Rel (fun q q' => SameAnswer q q' ∧ m.Enrols id q.2 ∧ m'.Enrols id q'.2)
      (m.loadIn n reference dir) (m'.loadIn n reference dir) := by
  have hrested : (m.rested m.loader.callDepth).heap.InRealm := hrealm
  have hrested' : (m'.rested m'.loader.callDepth).heap.InRealm := hrealm'
  have hends := Plan.ends_load (n := n) hrested hrested' rfl hoptions.callDepth hoptions hunit
    hnew hnew'
  unfold loadIn
  generalize (m.rested m.loader.callDepth).run (Evaluate.load n reference dir) = q,
    (m'.rested m'.loader.callDepth).run (Evaluate.load n reference dir) = q' at hends
  cases hends with
  | cutOff => exact .none
  | ended hr hm =>
    obtain ⟨hheap, henrols, henrols'⟩ := hm
    cases hr with
    | ok hv => exact .some ⟨.exposed hv hheap, henrols.of_rested, henrols'.of_rested⟩
    | error he =>
      refine .some ⟨?_, henrols.of_rested, henrols'.of_rested⟩
      rw [he.toLoadFault_eq hheap]
      exact .failed _ _ _

/-- A unit that keeps to itself is loaded after another such unit, whatever came of that one, as it
would be in a new realm by a new loader of the same options: either both loadings are cut off, or
both give the host the same answer, and neither prints anything. -/
theorem units_isolated {loader : Loader} {output : Output} {maxDepth n k : Nat}
    {first second : String} {dir dir' a b : Path} {r : Except LoadFault Value}
    (hempty : loader.registry = .empty) (ha : loader.IsUnit first dir a)
    (hb : loader.IsUnit second dir' b) (hab : a.same b = false)
    (hload : (create loader output maxDepth).loadIn n first dir = some (r, m)) :
    m.output = output ∧
    Option.Rel (fun q q' => SameAnswer q q' ∧ q.2.output = output ∧ q'.2.output = output)
      (m.loadIn k second dir') ((create loader output maxDepth).loadIn k second dir') := by
  have hnew (id : Path) : loader.registry.find? id = none := by
    rw [hempty]
    rfl
  have hrealm : (create loader output maxDepth).heap.InRealm := Heap.inRealm_realm
  -- The first unit, loaded in the same machine twice, tells what it leaves behind.
  have hself := answers_loadIn n hrealm hrealm (.refl _) ha (hnew a) (hnew a)
  rw [hload] at hself
  obtain ⟨-, henrols, -⟩ := hself
  have hafter : m.heap.InRealm := (Moment.InRealm.loadIn ⟨_, rfl, .refl⟩ hload).heap
  have hidentifiers : m.loader.registry.identifiers = [a] := by
    rw [henrols.identifiers]
    exact congrArg (fun r : Registry => r.identifiers ++ [a]) hempty
  have hunseen : m.loader.registry.find? b = none := by
    refine Registry.find?_eq_none.mpr fun u hu => ?_
    have hid : u.id = a := List.mem_singleton.mp (hidentifiers ▸ List.mem_map_of_mem hu)
    rw [hid, hab]
  have hsecond := answers_loadIn k hafter hrealm henrols.options.symm
    (henrols.options.isUnit hb) hunseen (hnew b)
  refine ⟨henrols.output, ?_⟩
  generalize m.loadIn k second dir' = q,
    (create loader output maxDepth).loadIn k second dir' = q' at hsecond
  cases hsecond with
  | none => exact .none
  | some h =>
    obtain ⟨hanswer, hprinted, hprinted'⟩ := h
    exact .some ⟨hanswer, hprinted.output.trans henrols.output, hprinted'.output⟩

end Machine

namespace Sample

/-- A script that throws what it exposes, and one that looks for what that one left. -/
def apart : Loader :=
  .create ⟨⟨[], 0⟩, [(["leaves.js"], .file "exports.left = [this]; throw exports".toUTF8),
    (["looks.js"], .file "exports.found = [typeof left, this === exports]".toUTF8)]⟩ .standard

theorem isUnit_leaves : apart.IsUnit "./leaves" ⟨"/"⟩ ⟨"/leaves.js"⟩ where
  resolved := eq_ok_of_toOption (by decide +kernel)
  script := by decide +kernel
  discreet := by decide +kernel

theorem isUnit_looks : apart.IsUnit "./looks" ⟨"/"⟩ ⟨"/looks.js"⟩ where
  resolved := eq_ok_of_toOption (by decide +kernel)
  script := by decide +kernel
  discreet := by decide +kernel

def machineApart : Machine :=
  .create apart (.kept "") standardCallDepth

end Sample

theorem Machine.units_isolated_sample : ∃ fault m v m₁ v' m',
    Sample.machineApart.loadIn 60 "./leaves" ⟨"/"⟩ = some (.error fault, m) ∧
    m.loadIn 60 "./looks" ⟨"/"⟩ = some (.ok v, m₁) ∧
    Sample.machineApart.loadIn 60 "./looks" ⟨"/"⟩ = some (.ok v', m') ∧
    SameAnswer (.ok v, m₁) (.ok v', m') := by
  have hrun : ((Sample.machineApart.loadIn 60 "./leaves" ⟨"/"⟩).any fun q =>
      q.1.toOption.isNone && (q.2.loadIn 60 "./looks" ⟨"/"⟩).any fun q => q.1.toOption.isSome) =
        true := by
    decide +kernel
  obtain ⟨⟨r, m⟩, hfirst, hrun⟩ := (Option.any_eq_true ..).mp hrun
  obtain ⟨hr, hrun⟩ := Bool.and_eq_true_iff.mp hrun
  obtain ⟨⟨r₁, m₁⟩, hsecond, hr₁⟩ := (Option.any_eq_true ..).mp hrun
  obtain ⟨-, hanswers⟩ := units_isolated (k := 60) rfl Sample.isUnit_leaves Sample.isUnit_looks
    (by decide +kernel) hfirst
  cases r with
  | ok v => contradiction
  | error fault =>
    rw [hsecond] at hanswers
    generalize hfresh : (create Sample.apart (.kept "") standardCallDepth).loadIn 60 "./looks"
      ⟨"/"⟩ = q' at hanswers
    cases hanswers with
    | some h =>
      obtain ⟨hanswer, -, -⟩ := h
      cases hanswer with
      | failed => contradiction
      | exposed hv hheap => exact ⟨_, _, _, _, _, _, hfirst, hsecond, hfresh, .exposed hv hheap⟩

end ModuleLoader
