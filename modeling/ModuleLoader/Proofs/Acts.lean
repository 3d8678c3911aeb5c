import ModuleLoader.Proofs.Runs

/-! What the acts of scripts leave alone. All that an act does to the loader is to read files, and
what it raises was not raised out of another module. The loader itself acts otherwise. -/
namespace ModuleLoader

open Script

def Loader.Reads (l l' : Loader) : Prop :=
  ∃ ids : List Path, l' = { l with journal := ids.map Event.read ++ l.journal }

theorem Loader.Reads.refl (l : Loader) : l.Reads l :=
  ⟨[], rfl⟩

theorem Loader.Reads.trans {l l' l'' : Loader} (h : l.Reads l') (h' : l'.Reads l'') :
    l.Reads l'' := by
  obtain ⟨ids, rfl⟩ := h
  obtain ⟨ids', rfl⟩ := h'
  refine ⟨ids' ++ ids, ?_⟩
  rw [List.map_append, List.append_assoc]

/-- What the loaders were built from is the same; their books may differ. -/
structure Loader.SameOptions (l l' : Loader) : Prop where
  files : l.files = l'.files
  base : l.base = l'.base
  callDepth : l.callDepth = l'.callDepth
  strategies : l.strategies = l'.strategies
  dropped : l.dropped = l'.dropped

theorem Loader.SameOptions.refl (l : Loader) : l.SameOptions l :=
  ⟨rfl, rfl, rfl, rfl, rfl⟩

theorem Loader.SameOptions.symm {l l' : Loader} (h : l.SameOptions l') : l'.SameOptions l :=
  ⟨h.files.symm, h.base.symm, h.callDepth.symm, h.strategies.symm, h.dropped.symm⟩

theorem Loader.SameOptions.trans {l l' l'' : Loader} (h : l.SameOptions l')
    (h' : l'.SameOptions l'') : l.SameOptions l'' :=
  ⟨h.files.trans h'.files, h.base.trans h'.base, h.callDepth.trans h'.callDepth,
    h.strategies.trans h'.strategies, h.dropped.trans h'.dropped⟩

theorem Loader.Reads.sameOptions {l l' : Loader} (h : l.Reads l') : l.SameOptions l' := by
  obtain ⟨ids, rfl⟩ := h
  exact ⟨rfl, rfl, rfl, rfl, rfl⟩

/-- From one machine to the other, only the heap and the output changed, and files were read. -/
structure Machine.Quiet (m m' : Machine) : Prop where
  loader : m.loader.Reads m'.loader
  depth : m'.depth = m.depth
  maxDepth : m'.maxDepth = m.maxDepth

namespace Machine.Quiet

variable {m m' m'' : Machine}

theorem refl (m : Machine) : m.Quiet m :=
  ⟨.refl m.loader, rfl, rfl⟩

theorem trans (h : m.Quiet m') (h' : m'.Quiet m'') : m.Quiet m'' :=
  ⟨h.loader.trans h'.loader, h'.depth.trans h.depth, h'.maxDepth.trans h.maxDepth⟩

end Machine.Quiet

def Exception.Own : Exception → Prop
  | thrown _ => True
  | load fault => ∀ path message, fault ≠ .uncaught path message
  | uncaught _ _ => False

/-- All that a run does to the loader is to read files, and its exceptions are its own. -/
structure Run.Plain {α : Type} (x : Run α) : Prop where
  quiet : ∀ {m m' r}, Machine.run m x = some (r, m') → m.Quiet m'
  own : ∀ {m m' e}, Machine.run m x = some (.error e, m') → e.Own

namespace Run

variable {α β : Type}

theorem plain_of_ok {x : Run α} (f : Machine → α × Machine) (hq : ∀ m : Machine, m.Quiet (f m).2)
    (hx : ∀ m : Machine, m.run x = some (.ok (f m).1, (f m).2)) : x.Plain where
  quiet h := by
    rw [hx] at h
    obtain ⟨-, rfl⟩ := Prod.mk.inj (Option.some.inj h)
    exact hq _
  own h := by
    rw [hx] at h
    cases h

theorem plain_pure (a : α) : (pure a : Run α).Plain :=
  plain_of_ok (fun m => (a, m)) (fun m => .refl m) fun _ => rfl

theorem plain_cutOff : (cutOff : Run α).Plain where
  quiet h := nomatch h
  own h := nomatch h

theorem plain_stop {e : Exception} (he : e.Own) : (stop e : Run α).Plain where
  quiet h := by
    cases h
    exact .refl _
  own h := by
    cases h
    exact he

theorem Plain.bind {x : Run α} {f : α → Run β} (hx : x.Plain) (hf : ∀ a, (f a).Plain) :
    (x >>= f).Plain where
  quiet h := by
    obtain ⟨e, hxe, -⟩ | ⟨a, m₁, hxa, hfa⟩ := Machine.run_bind_eq_some h
    · exact hx.quiet hxe
    · exact (hx.quiet hxa).trans ((hf a).quiet hfa)
  own h := by
    obtain ⟨e', hxe, he⟩ | ⟨a, m₁, -, hfa⟩ := Machine.run_bind_eq_some h
    · cases he
      exact hx.own hxe
    · exact (hf a).own hfa

/-! ### Acts on the heap and the output -/

theorem plain_machine : machine.Plain :=
  plain_of_ok (fun m => (m, m)) (fun m => .refl m) fun _ => rfl

theorem plain_heap : heap.Plain :=
  plain_of_ok (fun m => (m.heap, m)) (fun m => .refl m) fun _ => rfl

theorem plain_withHeap (f : Heap → α × Heap) : (withHeap f).Plain :=
  plain_of_ok (fun m => ((f m.heap).1, { m with heap := (f m.heap).2 }))
    (fun m => ⟨.refl m.loader, rfl, rfl⟩) fun _ => rfl

theorem plain_modifyHeap (f : Heap → Heap) : (modifyHeap f).Plain :=
  plain_of_ok (fun m => ((), { m with heap := f m.heap }))
    (fun m => ⟨.refl m.loader, rfl, rfl⟩) fun _ => rfl

theorem plain_newObject (d : Dict Value) : (newObject d).Plain :=
  (plain_withHeap _).bind fun _ => plain_pure _

theorem plain_newArray (items : Array Value) : (newArray items).Plain :=
  (plain_withHeap _).bind fun _ => plain_pure _

theorem plain_newFunction (literal : FunctionDef) (scope : Scope) :
    (newFunction literal scope).Plain :=
  (plain_withHeap _).bind fun _ => plain_pure _

theorem plain_newScope (outer : Scope) (frame : Frame) : (newScope outer frame).Plain :=
  (plain_withHeap _).bind fun _ => plain_pure _

theorem plain_raise (name message : String) : (raise name message : Run α).Plain :=
  (plain_newObject _).bind fun _ => plain_stop trivial

theorem plain_caught (e : Exception) : (caught e).Plain := by
  cases e with
  | thrown v => exact plain_pure _
  | uncaught path v => exact plain_pure _
  | load fault => exact plain_newObject _

theorem plain_declare (scope : Scope) (name : String) (value : Value) (mutable : Bool) :
    (declare scope name value mutable).Plain := by
  unfold declare
  split
  · exact plain_pure _
  · exact plain_modifyHeap _

theorem plain_modify {f : Machine → Machine} (hf : ∀ m : Machine, m.Quiet (f m)) :
    Run.Plain (modify f : Run Unit) :=
  plain_of_ok (fun m => ((), f m)) hf fun _ => rfl

theorem plain_printLine (line : String) : (printLine line).Plain := by
  refine plain_machine.bind fun m => ?_
  split
  · exact plain_raise _ _
  · refine plain_modify fun m => ?_
    split
    · exact ⟨.refl m.loader, rfl, rfl⟩
    · exact .refl m

end Run

/-! ### Acts of scripts -/

namespace Builtin

open Run

theorem plain_print (args : List Value) : (print args).Plain :=
  plain_heap.bind fun _ => (plain_printLine _).bind fun _ => plain_pure _

theorem plain_stringify (args : List Value) : (stringify args).Plain := by
  refine plain_heap.bind fun h => ?_
  split
  · exact plain_raise _ _
  · exact plain_raise _ _
  · exact plain_pure _
  · exact plain_pure _

theorem plain_parse (args : List Value) : (parse args).Plain := by
  refine plain_heap.bind fun h => ?_
  split
  · exact plain_withHeap _
  · exact plain_raise _ _

theorem plain_keys (args : List Value) : (keys args).Plain := by
  refine plain_heap.bind fun h => ?_
  split
  · exact plain_newArray _
  · exact plain_newArray _
  · exact plain_raise _ _
  · exact plain_raise _ _
  · exact plain_newArray _

theorem plain_push (this : Value) (args : List Value) : (push this args).Plain := by
  unfold push
  split
  · exact (plain_modifyHeap _).bind fun _ => plain_heap.bind fun _ => plain_pure _
  · exact plain_raise _ _

theorem plain_join (this : Value) (args : List Value) : (join this args).Plain := by
  refine plain_heap.bind fun h => ?_
  split
  · exact plain_pure _
  · exact plain_raise _ _

theorem plain_call (n : Native) (this : Value) (args : List Value) : (call n this args).Plain := by
  cases n with
  | print => exact plain_print args
  | log => exact plain_print args
  | error => exact plain_print args
  | stringify => exact plain_stringify args
  | parse => exact plain_parse args
  | keys => exact plain_keys args
  | push => exact plain_push this args
  | join => exact plain_join this args
  | require home => exact plain_pure _
  | host number name => exact plain_pure _

end Builtin

namespace Evaluate

open Run

theorem plain_getProperty (target : Value) (key : String) : (getProperty target key).Plain := by
  refine plain_heap.bind fun h => ?_
  split
  · exact plain_pure _
  · exact plain_raise _ _

theorem plain_putProperty (target : Value) (key : String) (value : Value) :
    (putProperty target key value).Plain := by
  refine plain_heap.bind fun h => ?_
  split
  · exact plain_raise _ _
  · exact plain_modifyHeap _

theorem plain_getVariable (scope : Scope) (name : String) : (getVariable scope name).Plain := by
  refine plain_heap.bind fun h => ?_
  split
  · exact plain_pure _
  · exact plain_raise _ _

theorem plain_putVariable (scope : Scope) (name : String) (value : Value) :
    (putVariable scope name value).Plain := by
  refine plain_heap.bind fun h => ?_
  split
  · exact plain_raise _ _
  · exact plain_raise _ _
  · exact plain_modifyHeap _

theorem plain_getPlace (scope : Scope) (p : Place) : (getPlace scope p).Plain := by
  cases p with
  | «variable» name => exact plain_getVariable scope name
  | property target key => exact plain_getProperty target key

theorem plain_putPlace (scope : Scope) (value : Value) (p : Place) :
    (putPlace scope value p).Plain := by
  cases p with
  | «variable» name => exact plain_putVariable scope name value
  | property target key => exact plain_putProperty target key value

theorem plain_hoist (scope : Scope) (statements : List Stmt) : (hoist scope statements).Plain := by
  fun_induction hoist scope statements with
  | case1 => exact plain_pure _
  | case2 literal rest _ name hname ih =>
    exact (plain_newFunction _ _).bind fun _ => (plain_declare _ _ _ _).bind fun _ => ih
  | case3 literal rest _ hname ih => exact ih
  | case4 s rest h ih => exact ih

theorem plain_functionValue (literal : FunctionDef) (scope : Scope) :
    (functionValue literal scope).Plain := by
  unfold functionValue
  split
  · exact plain_newFunction _ _
  · exact (plain_newScope _ _).bind fun _ => (plain_newFunction _ _).bind fun _ =>
      (plain_declare _ _ _ _).bind fun _ => plain_pure _

theorem plain_compile (source : String) : (compile source).Plain := by
  unfold compile
  split
  · exact plain_pure _
  · exact (plain_newFunction _ _).bind fun _ => plain_pure _

theorem plain_sourceOf (id : Path) : (sourceOf id).Plain := by
  refine Plain.bind (plain_of_ok
    (fun m => ((), { m with loader := m.loader.note (.read id) }))
    (fun _ => ⟨⟨[id], rfl⟩, rfl, rfl⟩) fun _ => rfl) fun _ => plain_machine.bind fun m => ?_
  split
  · exact plain_pure _
  · exact plain_stop nofun

theorem plain_loadJson (u : Module) : (loadJson u).Plain := by
  refine (plain_sourceOf u.id).bind fun source => ?_
  split
  · exact plain_stop nofun
  · exact (plain_withHeap _).bind fun _ => plain_modifyHeap _

end Evaluate

end ModuleLoader
