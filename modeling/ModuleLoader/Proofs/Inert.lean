import ModuleLoader.Proofs.Contracts

/-! Acts on data. Most acts are about objects and arrays, about what is printed, or about the books
of the loader. They leave the scopes and the functions of a run as they are. -/
namespace ModuleLoader

open Script

/-- What is left of a heap without the data: the scopes and the functions. -/
def Script.Heap.code (h : Heap) : Array Frame × Array Closure :=
  (h.frames, h.closures)

/-- The act makes and changes no scopes or functions. -/
def Run.Inert {α : Type} (x : Run α) : Prop :=
  ∀ m r m', Machine.run m x = some (r, m') → m'.heap.code = m.heap.code

/-! ### Conversions of data -/

namespace Script.Heap

mutual

theorem code_ofJson (h : Heap) (j : Json) : (h.ofJson j).2.code = h.code := by
  cases j with
  | array items =>
    rw [ofJson]
    exact code_ofJsonItems h items
  | object fields =>
    rw [ofJson]
    exact code_ofJsonFields h fields
  | _ => rw [ofJson]

theorem code_ofJsonItems (h : Heap) (items : List Json) :
    (h.ofJsonItems items).2.code = h.code := by
  cases items with
  | nil => rw [ofJsonItems]
  | cons j rest =>
    rw [ofJsonItems]
    exact (code_ofJsonItems _ rest).trans (code_ofJson h j)

theorem code_ofJsonFields (h : Heap) (fields : List (String × Json)) :
    (h.ofJsonFields fields).2.code = h.code := by
  cases fields with
  | nil => rw [ofJsonFields]
  | cons field rest =>
    obtain ⟨key, j⟩ := field
    rw [ofJsonFields]
    exact (code_ofJsonFields _ rest).trans (code_ofJson h j)

end

theorem code_putProperty (h : Heap) (target : Value) (key : String) (value : Value) :
    (h.putProperty target key value).code = h.code := by
  unfold putProperty
  split
  · rfl
  · split <;> rfl
  · rfl

end Script.Heap

/-! ### Acts -/

namespace Run

variable {α β : Type} {x : Run α}

theorem inert_of_ok (f : Machine → α × Machine)
    (hx : ∀ m : Machine, m.run x = some (.ok (f m).1, (f m).2))
    (hf : ∀ m : Machine, (f m).2.heap.code = m.heap.code) : x.Inert := by
  intro m r m' h
  rw [hx] at h
  obtain ⟨-, rfl⟩ := Prod.mk.inj (Option.some.inj h)
  exact hf m

theorem inert_pure (a : α) : (pure a : Run α).Inert :=
  inert_of_ok (fun m => (a, m)) (fun _ => rfl) fun _ => rfl

theorem inert_stop (e : Exception) : (stop e : Run α).Inert := by
  intro m r m' h
  cases h
  rfl

theorem inert_resume (r : Except Exception α) : (resume r).Inert := by
  intro m r' m' h
  cases h
  rfl

theorem Inert.bind {f : α → Run β} (hx : x.Inert) (hf : ∀ a, (f a).Inert) : (x >>= f).Inert := by
  intro m r m' h
  obtain ⟨e, hxe, -⟩ | ⟨a, m₁, hxa, hfa⟩ := Machine.run_bind_eq_some h
  · exact hx m _ m' hxe
  · exact (hf a m₁ r m' hfa).trans (hx m _ m₁ hxa)

theorem inert_machine : machine.Inert :=
  inert_of_ok (fun m => (m, m)) (fun _ => rfl) fun _ => rfl

theorem inert_heap : heap.Inert :=
  inert_of_ok (fun m => (m.heap, m)) (fun _ => rfl) fun _ => rfl

theorem inert_withHeap {f : Heap → α × Heap} (hf : ∀ h, (f h).2.code = h.code) :
    (withHeap f).Inert :=
  inert_of_ok (fun m => ((f m.heap).1, { m with heap := (f m.heap).2 })) (fun _ => rfl)
    fun m => hf m.heap

theorem inert_modifyHeap {f : Heap → Heap} (hf : ∀ h, (f h).code = h.code) :
    (modifyHeap f).Inert :=
  inert_of_ok (fun m => ((), { m with heap := f m.heap })) (fun _ => rfl) fun m => hf m.heap

theorem inert_modifyLoader (f : Loader → Loader) : (modifyLoader f).Inert :=
  inert_of_ok (fun m => ((), { m with loader := f m.loader })) (fun _ => rfl) fun _ => rfl

theorem inert_enter : enter.Inert :=
  inert_of_ok (fun _ => ((), _)) (fun _ => rfl) fun _ => rfl

theorem inert_leave : leave.Inert :=
  inert_of_ok (fun _ => ((), _)) (fun _ => rfl) fun _ => rfl

theorem inert_newObject (d : Dict Value) : (newObject d).Inert :=
  (inert_withHeap fun _ => rfl).bind fun _ => inert_pure _

theorem inert_newArray (items : Array Value) : (newArray items).Inert :=
  (inert_withHeap fun _ => rfl).bind fun _ => inert_pure _

theorem inert_raise (name message : String) : (raise name message : Run α).Inert :=
  (inert_newObject _).bind fun _ => inert_stop _

theorem inert_caught (e : Exception) : (caught e).Inert := by
  cases e with
  | thrown v => exact inert_pure _
  | uncaught path v => exact inert_pure _
  | load fault => exact inert_newObject _

theorem inert_printLine (line : String) : (printLine line).Inert := by
  refine inert_machine.bind fun m => ?_
  split
  · exact inert_raise _ _
  · refine inert_of_ok (fun m => ((), _)) (fun _ => rfl) fun m => ?_
    dsimp only
    split <;> rfl

end Run

open Run

theorem Builtin.inert_call (n : Native) (this : Value) (args : List Value) :
    (call n this args).Inert := by
  have hprint : (print args).Inert :=
    inert_heap.bind fun _ => (inert_printLine _).bind fun _ => inert_pure _
  cases n with
  | print | log | error => exact hprint
  | stringify =>
    refine inert_heap.bind fun h => ?_
    split
    · exact inert_raise _ _
    · exact inert_raise _ _
    · exact inert_pure _
    · exact inert_pure _
  | parse =>
    refine inert_heap.bind fun h => ?_
    split
    · exact inert_withHeap fun h => h.code_ofJson _
    · exact inert_raise _ _
  | keys =>
    refine inert_heap.bind fun h => ?_
    split
    · exact inert_newArray _
    · exact inert_newArray _
    · exact inert_raise _ _
    · exact inert_raise _ _
    · exact inert_newArray _
  | push =>
    show (push this args).Inert
    unfold push
    split
    · refine Inert.bind (inert_modifyHeap ?_) fun _ => inert_heap.bind fun _ => inert_pure _
      exact fun _ => rfl
    · exact inert_raise _ _
  | join =>
    refine inert_heap.bind fun h => ?_
    split
    · exact inert_pure _
    · exact inert_raise _ _
  | require | host => exact inert_pure _

namespace Evaluate

theorem inert_getProperty (target : Value) (key : String) : (getProperty target key).Inert := by
  refine inert_heap.bind fun h => ?_
  split
  · exact inert_pure _
  · exact inert_raise _ _

theorem inert_putProperty (target : Value) (key : String) (value : Value) :
    (putProperty target key value).Inert := by
  refine inert_heap.bind fun h => ?_
  split
  · exact inert_raise _ _
  · exact inert_modifyHeap fun h => h.code_putProperty _ _ _

theorem inert_getVariable (scope : Scope) (name : String) : (getVariable scope name).Inert := by
  refine inert_heap.bind fun h => ?_
  split
  · exact inert_pure _
  · exact inert_raise _ _

theorem inert_getPlace (scope : Scope) (p : Place) : (getPlace scope p).Inert := by
  cases p with
  | «variable» name => exact inert_getVariable scope name
  | property target key => exact inert_getProperty target key

theorem inert_sourceOf (id : Path) : (sourceOf id).Inert := by
  refine (inert_modifyLoader _).bind fun _ => inert_machine.bind fun m => ?_
  split
  · exact inert_pure _
  · exact inert_stop _

theorem inert_loadJson (u : Module) : (loadJson u).Inert := by
  refine (inert_sourceOf u.id).bind fun source => ?_
  split
  · exact inert_stop _
  · exact (inert_withHeap fun h => h.code_ofJson _).bind fun _ => inert_modifyHeap fun _ => rfl

theorem inert_register (id : Path) : (register id).Inert := by
  intro m r m' h
  cases h
  show (m.loader.registry.demand m.heap id).2.2.code = _
  unfold Registry.demand
  split <;> rfl

theorem inert_announce (u : Module) : (Run.modifyHeap fun h => u.announce h).Inert :=
  inert_modifyHeap fun _ => rfl

end Evaluate

theorem Plan.inert_handlerFrame (param : Option String) (e : Exception) :
    (handlerFrame param e).Inert := by
  cases param with
  | none => exact inert_pure _
  | some name => exact (inert_caught e).bind fun _ => inert_pure _

end ModuleLoader
