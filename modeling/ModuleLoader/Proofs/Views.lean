import ModuleLoader.Proofs.Obstacles
import ModuleLoader.Proofs.Sights

/-! Runs that respect what is hidden. What a run works on is in sight, and so is what it gives;
hidden objects stay as they are. If it ends in a failure that tells of a module, then what that
failure says is in the way of the module really is. -/
namespace ModuleLoader

open Script

/-! ### What is in sight -/

/-- The exception carries nothing but these objects. If it tells what is in the way of a module,
this is what the files and the strategies say themselves. -/
def Exception.InSight (l : Loader) (K : Sight) : Exception → Prop
  | thrown v | uncaught _ v => v.Among K
  | load fault => ∀ id, fault.subject? = some id → l.obstacle? id = some fault

def Place.Among (K : Sight) : Place → Prop
  | «variable» _ => True
  | property target _ => target.Among K

/-- What the task is about is among these objects. A strategy that is to set to work on a module is
the one that its identifier calls for. -/
def Task.InSight (l : Loader) (K : Sight) : Task → Prop
  | call f this args => f.Among K ∧ this.Among K ∧ ∀ v ∈ args, v.Among K
  | start u s => K u.object ∧ l.strategyFor? u.id = some s
  | value _ _ | place _ _ | method _ _ | statement _ _ | body _ _ | load _ _ => True

/-- What the task gives is among these objects. -/
def Task.Shows (K : Sight) : (t : Task) → t.Result → Prop
  | value _ _, v | call _ _ _, v | load _ _, v => v.Among K
  | place _ _, p => p.Among K
  | method _ _, f => f.1.Among K ∧ f.2.Among K
  | statement _ _, c | body _ _, c => c.value.Among K
  | start _ _, _ => True

/-- A result that is so, or an exception that is in sight. -/
def Sight.Ends {α : Type} (l : Loader) (K : Sight) (Q : Sight → α → Prop) :
    Except Exception α → Prop
  | .ok a => Q K a
  | .error e => e.InSight l K

variable {l : Loader} {K K' : Sight}

theorem Exception.InSight.mono {e : Exception} (h : e.InSight l K) (hK : K ≤ K') :
    e.InSight l K' := by
  cases e with
  | load fault => exact h
  | thrown v => exact Value.Among.mono h hK
  | uncaught path v => exact Value.Among.mono h hK

theorem Place.Among.mono {p : Place} (h : p.Among K) (hK : K ≤ K') : p.Among K' := by
  cases p with
  | «variable» name => trivial
  | property target key => exact Value.Among.mono h hK

/-- The run respects what is hidden, whatever that is, if it begins when these objects are in
sight. -/
def Run.Respects {α : Type} (l : Loader) (K : Sight) (x : Run α) (Q : Sight → α → Prop) : Prop :=
  ∀ (H : ObjectId → Prop) (m : Machine) (r : Except Exception α) (m' : Machine),
    m.heap.Hides H → m.heap.Sees H = K → l.SameOptions m.loader → m.run x = some (r, m') →
      m.heap.Shields H m'.heap ∧ l.SameOptions m'.loader ∧ Sight.Ends l (m'.heap.Sees H) Q r

/-- A module that is created is in sight, and all that it refers to. -/
theorem Script.Heap.Hides.create {H : ObjectId → Prop} {h : Heap} (hh : h.Hides H) (id : Path) :
    h.Shields H (Module.create h id).2 ∧
      (Module.create h id).2.Sees H (Module.create h id).1.object := by
  obtain ⟨hexports, hsees⟩ := hh.newObject Dict.each_nil
  have hdata : Dict.Each (Value.Among ((h.newObject []).2.Sees H))
      [("id", .string id.text), ("exports", .object (h.newObject []).1),
        ("filename", .string id.text), ("path", .string id.directory.text),
        ("loaded", .bool false)] :=
    .cons trivial <| .cons hsees <| .cons trivial <| .cons trivial <| .cons trivial Dict.each_nil
  obtain ⟨hmodule, hsees'⟩ := hexports.hides.newObject hdata
  exact ⟨hexports.trans hmodule, hsees'⟩

/-! ### Runs -/

theorem Loader.sameOptions_note (l : Loader) (e : Event) : l.SameOptions (l.note e) :=
  ⟨rfl, rfl, rfl, rfl, rfl⟩

theorem Loader.sameOptions_settle (l : Loader) (id : Path) (state : ModuleState) :
    l.SameOptions (l.settle id state) :=
  ⟨rfl, rfl, rfl, rfl, rfl⟩

namespace Run

variable {α β : Type} {x : Run α} {Q : Sight → α → Prop}

theorem Respects.imp {Q' : Sight → α → Prop} (hx : x.Respects l K Q)
    (hQ : ∀ K', K ≤ K' → ∀ a, Q K' a → Q' K' a) : x.Respects l K Q' := by
  rintro H m r m' hh rfl hl h
  obtain ⟨hshields, hl', hr⟩ := hx H m r m' hh rfl hl h
  refine ⟨hshields, hl', ?_⟩
  cases r with
  | ok a => exact hQ _ hshields.sees a hr
  | error e => exact hr

theorem Respects.bind {f : α → Run β} {Q' : Sight → β → Prop} (hx : x.Respects l K Q)
    (hf : ∀ K', K ≤ K' → ∀ a, Q K' a → (f a).Respects l K' Q') : (x >>= f).Respects l K Q' := by
  rintro H m r m' hh rfl hl h
  obtain ⟨e, hxe, rfl⟩ | ⟨a, m₁, hxa, hfa⟩ := Machine.run_bind_eq_some h
  · exact hx H m _ m' hh rfl hl hxe
  · obtain ⟨hshields, hl₁, ha⟩ := hx H m _ m₁ hh rfl hl hxa
    obtain ⟨hshields', hl', hr⟩ := hf _ hshields.sees a ha H m₁ r m' hshields.hides rfl hl₁ hfa
    exact ⟨hshields.trans hshields', hl', hr⟩

theorem respects_of_ok (f : Machine → α × Machine)
    (hx : ∀ m : Machine, m.run x = some (.ok (f m).1, (f m).2))
    (h : ∀ {H : ObjectId → Prop} {m : Machine}, m.heap.Hides H → m.heap.Sees H = K →
      l.SameOptions m.loader → m.heap.Shields H (f m).2.heap ∧ l.SameOptions (f m).2.loader ∧
        Q ((f m).2.heap.Sees H) (f m).1) : x.Respects l K Q := by
  intro H m r m' hh hK hl hrun
  rw [hx] at hrun
  obtain ⟨rfl, rfl⟩ := Prod.mk.inj (Option.some.inj hrun)
  exact h hh hK hl

theorem respects_pure {a : α} (h : Q K a) : (pure a : Run α).Respects l K Q :=
  respects_of_ok (fun m => (a, m)) (fun _ => rfl) fun hh hK hl => ⟨.refl hh, hl, hK ▸ h⟩

theorem respects_resume {r : Except Exception α} (h : Sight.Ends l K Q r) :
    (resume r).Respects l K Q := by
  rintro H m r' m' hh rfl hl hrun
  cases hrun
  exact ⟨.refl hh, hl, h⟩

theorem respects_stop {e : Exception} (h : e.InSight l K) : (stop e : Run α).Respects l K Q := by
  rintro H m r m' hh rfl hl hrun
  cases hrun
  exact ⟨.refl hh, hl, h⟩

theorem respects_cutOff : (cutOff : Run α).Respects l K Q :=
  fun _ _ _ _ _ _ _ h => nomatch h

theorem respects_machine : machine.Respects l K fun _ m => l.SameOptions m.loader :=
  respects_of_ok (fun m => (m, m)) (fun _ => rfl) fun hh _ hl => ⟨.refl hh, hl, hl⟩

theorem respects_heap : heap.Respects l K fun K h => h.Among K :=
  respects_of_ok (fun m => (m.heap, m)) (fun _ => rfl) fun hh _ hl => ⟨.refl hh, hl, hh.among⟩

theorem respects_withHeap {f : Heap → α × Heap}
    (hf : ∀ {H : ObjectId → Prop} {h : Heap}, h.Hides H → h.Sees H = K →
      h.Shields H (f h).2 ∧ Q ((f h).2.Sees H) (f h).1) : (withHeap f).Respects l K Q :=
  respects_of_ok (fun m => ((f m.heap).1, { m with heap := (f m.heap).2 })) (fun _ => rfl)
    fun hh hK hl => ⟨(hf hh hK).1, hl, (hf hh hK).2⟩

theorem respects_modifyHeap {f : Heap → Heap}
    (hf : ∀ {H : ObjectId → Prop} {h : Heap}, h.Hides H → h.Sees H = K → h.Shields H (f h)) :
    (modifyHeap f).Respects l K fun _ _ => True :=
  respects_of_ok (fun m => ((), { m with heap := f m.heap })) (fun _ => rfl)
    fun hh hK hl => ⟨hf hh hK, hl, trivial⟩

theorem respects_modifyLoader {f : Loader → Loader} (hf : ∀ l : Loader, l.SameOptions (f l)) :
    (modifyLoader f).Respects l K fun _ _ => True :=
  respects_of_ok (fun m => ((), { m with loader := f m.loader })) (fun _ => rfl)
    fun hh _ hl => ⟨.refl hh, hl.trans (hf _), trivial⟩

/-- Neither the heap nor the loader has a part in it. -/
theorem respects_modify {f : Machine → Machine} (hheap : ∀ m : Machine, (f m).heap = m.heap)
    (hloader : ∀ m : Machine, (f m).loader = m.loader) :
    Run.Respects l K (modify f : Run Unit) fun _ _ => True := by
  refine respects_of_ok (fun m => ((), f m)) (fun _ => rfl) fun {H m} hh _ hl => ?_
  rw [hheap, hloader]
  exact ⟨.refl hh, hl, trivial⟩

/-! ### Acts on the heap and the output -/

theorem respects_newObject {d : Dict Value} (hd : d.Each (Value.Among K)) :
    (newObject d).Respects l K fun K v => v.Among K := by
  refine Respects.bind (Q := fun K i => K i) (respects_withHeap ?_) fun _ _ i hi =>
    respects_pure hi
  rintro H h hh rfl
  exact hh.newObject hd

/-- What is made knows no objects but those that it was made from. -/
theorem respects_make {f : Heap → α × Heap} {make : α → β} {Q : Sight → β → Prop}
    (hf : ∀ {H : ObjectId → Prop} {h : Heap}, h.Hides H → h.Sees H = K → h.Shields H (f h).2)
    (hmake : ∀ K a, Q K (make a)) : (do return make (← withHeap f)).Respects l K Q :=
  Respects.bind (Q := fun _ _ => True) (respects_withHeap fun hh hK => ⟨hf hh hK, trivial⟩)
    fun K _ a _ => respects_pure (hmake K a)

theorem respects_newArray {items : Array Value} (h : ∀ v ∈ items, v.Among K) :
    (newArray items).Respects l K fun K v => v.Among K := by
  refine respects_make ?_ fun _ _ => trivial
  rintro H heap hh rfl
  exact hh.newArray h

theorem respects_newFunction (literal : FunctionDef) (scope : Scope) :
    (newFunction literal scope).Respects l K fun K v => v.Among K :=
  respects_make (fun hh _ => hh.newClosure _) fun _ _ => trivial

theorem respects_newScope (outer : Scope) {frame : Frame} (h : frame.Each (Binding.Among K)) :
    (newScope outer frame).Respects l K fun _ _ => True := by
  refine respects_make ?_ fun _ _ => trivial
  rintro H heap hh rfl
  exact hh.newFrame h

theorem respects_raise (name message : String) : (raise name message : Run α).Respects l K Q := by
  have htexts : Dict.Each (Value.Among K) [("name", .string name), ("message", .string message)] :=
    .cons trivial (.cons trivial Dict.each_nil)
  exact (respects_newObject htexts).bind fun _ _ _ hv => respects_stop hv

theorem respects_caught {e : Exception} (he : e.InSight l K) :
    (caught e).Respects l K fun K v => v.Among K := by
  cases e with
  | thrown v => exact respects_pure he
  | uncaught path v => exact respects_pure he
  | load fault =>
    exact respects_newObject (.cons trivial (.cons trivial (.cons trivial Dict.each_nil)))

theorem respects_declare (scope : Scope) (name : String) {v : Value} (hv : v.Among K)
    (mutable : Bool) : (declare scope name v mutable).Respects l K fun _ _ => True := by
  unfold declare
  split
  · exact respects_pure trivial
  · refine respects_modifyHeap ?_
    rintro H h hh rfl
    exact hh.declare _ name hv mutable

theorem respects_printLine (line : String) :
    (printLine line).Respects l K fun _ _ => True := by
  refine respects_machine.bind fun K _ m _ => ?_
  split
  · exact respects_raise _ _
  · refine respects_modify (fun m => ?_) fun m => ?_
    · cases m.output <;> rfl
    · cases m.output <;> rfl

end Run

/-! ### Acts of scripts -/

namespace Builtin

open Run

variable {this : Value} {args : List Value}

theorem respects_print (args : List Value) : (print args).Respects l K fun K v => v.Among K :=
  respects_heap.bind fun _ _ _ _ => (respects_printLine _).bind fun _ _ _ _ =>
    respects_pure trivial

theorem respects_stringify (args : List Value) :
    (stringify args).Respects l K fun K v => v.Among K := by
  refine respects_heap.bind fun K _ h _ => ?_
  split
  · exact respects_raise _ _
  · exact respects_raise _ _
  · exact respects_pure trivial
  · exact respects_pure trivial

theorem respects_parse (args : List Value) : (parse args).Respects l K fun K v => v.Among K := by
  refine respects_heap.bind fun K _ h _ => ?_
  split
  · refine respects_withHeap ?_
    rintro H heap hh rfl
    exact hh.ofJson _
  · exact respects_raise _ _

theorem respects_keys (args : List Value) : (keys args).Respects l K fun K v => v.Among K := by
  have hstrings {α : Type} (f : α → String) (as : List α) (K : Sight) :
      ∀ v ∈ (as.map fun a => Value.string (f a)).toArray, v.Among K := by
    intro v hv
    obtain ⟨a, -, rfl⟩ := List.mem_map.mp (List.mem_toArray.mp hv)
    trivial
  refine respects_heap.bind fun K _ h _ => ?_
  split
  · exact respects_newArray (hstrings id _ _)
  · exact respects_newArray (hstrings toString _ _)
  · exact respects_raise _ _
  · exact respects_raise _ _
  · exact respects_newArray nofun

theorem respects_push (hargs : ∀ v ∈ args, v.Among K) :
    (push this args).Respects l K fun K v => v.Among K := by
  unfold push
  split
  · refine Run.Respects.bind (respects_modifyHeap ?_) fun _ _ _ _ =>
      respects_heap.bind fun _ _ _ _ => respects_pure trivial
    rintro H h hh rfl
    refine hh.modifyArray _ fun items hitems v hv => ?_
    obtain hv | hv := Array.mem_append.mp hv
    · exact hitems v hv
    · exact hargs v (List.mem_toArray.mp hv)
  · exact respects_raise _ _

theorem respects_join (this : Value) (args : List Value) :
    (join this args).Respects l K fun K v => v.Among K := by
  refine respects_heap.bind fun K _ h _ => ?_
  split
  · exact respects_pure trivial
  · exact respects_raise _ _

theorem respects_call (n : Native) (this : Value) (hargs : ∀ v ∈ args, v.Among K) :
    (call n this args).Respects l K fun K v => v.Among K := by
  cases n with
  | print => exact respects_print args
  | log => exact respects_print args
  | error => exact respects_print args
  | stringify => exact respects_stringify args
  | parse => exact respects_parse args
  | keys => exact respects_keys args
  | push => exact respects_push hargs
  | join => exact respects_join this args
  | require home => exact respects_pure trivial
  | host number name => exact respects_pure trivial

end Builtin

namespace Evaluate

open Run

variable {target v : Value} {p : Place}

theorem respects_getProperty (target : Value) (key : String) :
    (getProperty target key).Respects l K fun K v => v.Among K := by
  refine respects_heap.bind fun K _ h hh => ?_
  split
  · rename_i v hv
    exact respects_pure (hh.getProperty hv)
  · exact respects_raise _ _

theorem respects_putProperty (htarget : target.Among K) (key : String) (hv : v.Among K) :
    (putProperty target key v).Respects l K fun _ _ => True := by
  refine respects_heap.bind fun K' hK h _ => ?_
  split
  · exact respects_raise _ _
  · refine respects_modifyHeap ?_
    rintro H h hh rfl
    exact hh.putProperty (htarget.mono hK) key (hv.mono hK)

theorem respects_getVariable (scope : Scope) (name : String) :
    (getVariable scope name).Respects l K fun K v => v.Among K := by
  refine respects_heap.bind fun K _ h hh => ?_
  split
  · rename_i v hv
    exact respects_pure (hh.lookup? hv)
  · exact respects_raise _ _

theorem respects_putVariable (scope : Scope) (name : String) (hv : v.Among K) :
    (putVariable scope name v).Respects l K fun _ _ => True := by
  refine respects_heap.bind fun K' hK h _ => ?_
  split
  · exact respects_raise _ _
  · exact respects_raise _ _
  · refine respects_modifyHeap ?_
    rintro H h hh rfl
    exact hh.assign scope name (hv.mono hK)

theorem respects_getPlace (scope : Scope) (p : Place) :
    (getPlace scope p).Respects l K fun K v => v.Among K := by
  cases p with
  | «variable» name => exact respects_getVariable scope name
  | property target key => exact respects_getProperty target key

theorem respects_putPlace (scope : Scope) (hv : v.Among K) (hp : p.Among K) :
    (putPlace scope v p).Respects l K fun _ _ => True := by
  cases p with
  | «variable» name => exact respects_putVariable scope name hv
  | property target key => exact respects_putProperty hp key hv

theorem respects_hoist (scope : Scope) (statements : List Stmt) :
    (hoist scope statements).Respects l K fun _ _ => True := by
  induction statements generalizing K with
  | nil => exact respects_pure trivial
  | cons s rest ih =>
    cases s with
    | function literal =>
      rw [hoist]
      split
      · refine Respects.bind (respects_newFunction literal scope) fun K _ f hf => ?_
        exact (respects_declare scope _ hf true).bind fun _ _ _ _ => ih
      · exact ih
    | _ => exact ih

theorem respects_functionValue (literal : FunctionDef) (scope : Scope) :
    (functionValue literal scope).Respects l K fun K v => v.Among K := by
  unfold functionValue
  split
  · exact respects_newFunction _ _
  · refine (respects_newScope scope Dict.each_nil).bind fun _ _ own _ => ?_
    refine (respects_newFunction _ _).bind fun _ _ f hf => ?_
    exact (respects_declare own _ hf false).bind fun _ hK _ _ => respects_pure (hf.mono hK)

theorem each_callFrame {this : Value} (hthis : this.Among K) (params : List String)
    {args : List Value} (hargs : ∀ v ∈ args, v.Among K) :
    Dict.Each (Binding.Among K) (callFrame this params args) := by
  have hgo (frame : Frame) (hframe : frame.Each (Binding.Among K)) :
      Dict.Each (Binding.Among K) (callFrame.go frame params args) := by
    induction params generalizing frame args with
    | nil => exact hframe
    | cons p ps ih =>
      cases args with
      | nil => exact ih (List.forall_mem_nil _) _ (hframe.insert p trivial)
      | cons a as =>
        obtain ⟨ha, has⟩ := List.forall_mem_cons.mp hargs
        exact ih has _ (hframe.insert p ha)
  exact hgo _ (Dict.each_nil.cons hthis)

/-! ### Acts on modules -/

theorem respects_compile (source : String) : (compile source).Respects l K fun K r =>
    (∀ f, r = .ok f → f.Among K) ∧
      ∀ e, r = .error e → Program.ofSource (withoutInterpreterLine source) = .error e := by
  unfold compile
  split
  · rename_i e he
    refine respects_pure ⟨nofun, fun e' he' => ?_⟩
    obtain rfl := Except.error.inj he'
    exact he
  · refine (respects_newFunction _ _).bind fun _ _ f hf => respects_pure ⟨fun f' hf' => ?_, nofun⟩
    obtain rfl := Except.ok.inj hf'
    exact hf

/-- The text that is read is the one that the files have, and if there is none, that is what is in
the way of the module. -/
theorem respects_sourceOf {id : Path} {s : Strategy} (hs : l.strategyFor? id = some s) :
    (sourceOf id).Respects l K fun _ source =>
      ∃ text, l.files.readText id = .ok text ∧ source = withoutByteOrderMark text := by
  refine (respects_modifyLoader fun l => l.sameOptions_note _).bind fun _ _ _ _ =>
    respects_machine.bind fun _ _ m hl => ?_
  rw [← hl.files]
  split
  · rename_i text hread
    exact respects_pure ⟨text, hread, rfl⟩
  · rename_i fault hread
    refine respects_stop fun id' hid => ?_
    obtain rfl := Option.some.inj hid
    exact Loader.obstacle?_of_error hs hread

theorem respects_expose {u : Module} (hu : K u.object) (hv : v.Among K) :
    (Run.modifyHeap fun h => u.expose h v).Respects l K fun _ _ => True := by
  refine respects_modifyHeap ?_
  rintro H h hh rfl
  exact hh.setProperty hu "exports" hv

theorem respects_announce {u : Module} (hu : K u.object) :
    (Run.modifyHeap fun h => u.announce h).Respects l K fun _ _ => True := by
  refine respects_modifyHeap ?_
  rintro H h hh rfl
  exact hh.setProperty hu "loaded" trivial

theorem respects_loadJson {u : Module} (hu : K u.object) (hs : l.strategyFor? u.id = some .json) :
    (loadJson u).Respects l K fun _ _ => True := by
  refine (respects_sourceOf hs).bind fun K₁ hK₁ source hsource => ?_
  obtain ⟨text, hread, rfl⟩ := hsource
  split
  · rename_i e he
    refine respects_stop fun id hid => ?_
    obtain rfl := Option.some.inj hid
    simp only [Loader.obstacle?_of_ok hs hread, Strategy.objection?, he]
  · refine Run.Respects.bind (Q := fun K v => v.Among K) (respects_withHeap ?_)
      fun K₂ hK₂ v hv => respects_expose (hK₂ _ (hK₁ _ hu)) hv
    rintro H h hh rfl
    exact hh.ofJson _

/-- What is registered is in sight from then on. -/
theorem respects_register (id : Path) : (register id).Respects l K fun K answer =>
    ∀ u, answer = .registered u → u.id = id ∧ K u.object := by
  rintro H m r m' hh rfl hl hrun
  cases hfind : m.loader.registry.find? id with
  | some u =>
    rw [Machine.run_register_hit hfind] at hrun
    obtain ⟨rfl, rfl⟩ := Prod.mk.inj (Option.some.inj hrun)
    exact ⟨.refl hh, hl.trans ⟨rfl, rfl, rfl, rfl, rfl⟩, nofun⟩
  | none =>
    rw [Machine.run_register_new hfind] at hrun
    obtain ⟨rfl, rfl⟩ := Prod.mk.inj (Option.some.inj hrun)
    obtain ⟨hshields, hsees⟩ := hh.create id
    refine ⟨hshields, hl.trans ⟨rfl, rfl, rfl, rfl, rfl⟩, fun u hu => ?_⟩
    obtain rfl := Registry.Answer.registered.inj hu
    exact ⟨rfl, hsees⟩

theorem among_exposed {h : Heap} (hh : h.Among K) (u : Module) : (u.exposed h).Among K := by
  unfold Module.exposed
  cases hget : (h.object u.object).get? "exports" with
  | none => trivial
  | some v => exact (hh.object u.object).of_get? hget

end Evaluate

end ModuleLoader
