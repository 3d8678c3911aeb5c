import ModuleLoader.Proofs.Pairs
import ModuleLoader.Proofs.Twins

/-! Acts done twice. Every act of a script that speaks of nothing shared does on one of two twin
heaps what it does on the other. It neither prints anything nor touches the loader. -/
namespace ModuleLoader

open Script

/-! ### What corresponds -/

inductive Exception.Twin (k : Relocation) : Exception → Exception → Prop where
  | thrown {v v' : Value} (h : v.Twin k v') : Twin k (.thrown v) (.thrown v')
  | load (fault : LoadFault) : Twin k (.load fault) (.load fault)
  | uncaught (path : Path) {v v' : Value} (h : v.Twin k v') :
      Twin k (.uncaught path v) (.uncaught path v')

inductive Completion.Twin (k : Relocation) : Completion → Completion → Prop where
  | normal : Twin k .normal .normal
  | «return» {v v' : Value} (h : v.Twin k v') : Twin k (.return v) (.return v')
  | «break» : Twin k .break .break
  | «continue» : Twin k .continue .continue

theorem Completion.Twin.value {k : Relocation} {c c' : Completion} (h : c.Twin k c') :
    c.value.Twin k c'.value := by
  cases h with
  | «return» hv => exact hv
  | _ => exact .undefined

inductive Place.Twin (k : Relocation) : Place → Place → Prop where
  | «variable» {name : String} (h : name ∉ sharedNames) : Twin k (.variable name) (.variable name)
  | property {v v' : Value} (h : v.Twin k v') (key : String) :
      Twin k (.property v key) (.property v' key)

inductive Task.Twin (k : Relocation) : Task → Task → Prop where
  | value {e : Expr} {scope scope' : Scope} (he : (Node.expr e).IsDiscreet)
      (hs : Scope.Twin k scope scope') : Twin k (.value e scope) (.value e scope')
  | place {e : Expr} {scope scope' : Scope} (he : (Node.expr e).IsDiscreet)
      (hs : Scope.Twin k scope scope') : Twin k (.place e scope) (.place e scope')
  | method {e : Expr} {scope scope' : Scope} (he : (Node.expr e).IsDiscreet)
      (hs : Scope.Twin k scope scope') : Twin k (.method e scope) (.method e scope')
  | statement {s : Stmt} {scope scope' : Scope} (h : (Node.stmt s).IsDiscreet)
      (hs : Scope.Twin k scope scope') : Twin k (.statement s scope) (.statement s scope')
  | body {statements : List Stmt} {scope scope' : Scope}
      (h : ∀ s ∈ statements, (Node.stmt s).IsDiscreet) (hs : Scope.Twin k scope scope') :
      Twin k (.body statements scope) (.body statements scope')
  | call {f f' this this' : Value} {args args' : List Value} (hf : f.Twin k f')
      (hthis : this.Twin k this') (hargs : List.Forall₂ (Value.Twin k) args args') :
      Twin k (.call f this args) (.call f' this' args')

/-- What the tasks give corresponds. -/
def Task.Gives (k : Relocation) : (t t' : Task) → t.Result → t'.Result → Prop
  | value _ _, value _ _, v, v' => v.Twin k v'
  | place _ _, place _ _, p, p' => p.Twin k p'
  | method _ _, method _ _, f, f' => f.1.Twin k f'.1 ∧ f.2.Twin k f'.2
  | statement _ _, statement _ _, c, c' => c.Twin k c'
  | body _ _, body _ _, c, c' => c.Twin k c'
  | call _ _ _, call _ _ _, v, v' => v.Twin k v'
  | _, _, _, _ => False

/-- Two runs of the same script on twins, each from a machine of its own. -/
structure Doubling where
  relocation : Relocation
  first : Machine
  second : Machine

/-- The machines have twin heaps and are equally deep in calls; what is outside of their heaps is as
it was at first. -/
structure Doubling.Holds (D : Doubling) (m m' : Machine) : Prop where
  heap : m.heap.Twin D.relocation m'.heap
  depth : m.depth = m'.depth
  maxDepth : m.maxDepth = m'.maxDepth
  loader : m.loader = D.first.loader ∧ m'.loader = D.second.loader
  output : m.output = D.first.output ∧ m'.output = D.second.output

def Doubling.pairing (D : Doubling) : Pairing where
  holds := D.Holds
  throws := Exception.Twin D.relocation
  admits := Task.Twin D.relocation
  gives := Task.Gives D.relocation

variable {D : Doubling}

/-! ### Acts -/

namespace Run

variable {α β : Type} {v v' : Value} {scope scope' : Scope}

theorem pairs_heap : heap.Pairs D.pairing heap (Heap.Twin D.relocation) :=
  pairs_of_ok (fun m => (m.heap, m)) (fun m => (m.heap, m)) (fun _ => rfl) (fun _ => rfl)
    fun _ _ hm => ⟨hm.heap, hm⟩

theorem pairs_withHeap {f : Heap → α × Heap} {f' : Heap → β × Heap} {Q : α → β → Prop}
    (hf : ∀ h h', h.Twin D.relocation h' →
      Q (f h).1 (f' h').1 ∧ (f h).2.Twin D.relocation (f' h').2) :
    (withHeap f).Pairs D.pairing (withHeap f') Q :=
  pairs_of_ok (fun m => ((f m.heap).1, { m with heap := (f m.heap).2 }))
    (fun m => ((f' m.heap).1, { m with heap := (f' m.heap).2 })) (fun _ => rfl) (fun _ => rfl)
    fun m m' hm => (hf m.heap m'.heap hm.heap).imp_right fun hafter => { hm with heap := hafter }

theorem pairs_modifyHeap {f f' : Heap → Heap}
    (hf : ∀ h h', h.Twin D.relocation h' → (f h).Twin D.relocation (f' h')) :
    (modifyHeap f).Pairs D.pairing (modifyHeap f') fun _ _ => True :=
  pairs_of_ok (fun m => ((), { m with heap := f m.heap }))
    (fun m => ((), { m with heap := f' m.heap })) (fun _ => rfl) (fun _ => rfl)
    fun m m' hm => ⟨trivial, { hm with heap := hf m.heap m'.heap hm.heap }⟩

theorem pairs_leave : leave.Pairs D.pairing leave fun _ _ => True :=
  pairs_of_ok (fun m => ((), { m with depth := m.depth - 1 }))
    (fun m => ((), { m with depth := m.depth - 1 })) (fun _ => rfl) (fun _ => rfl)
    fun _ _ hm => ⟨trivial, { hm with depth := congrArg (· - 1) hm.depth }⟩

theorem pairs_newObject {d d' : Dict Value} (hd : Properties.Twin D.relocation d d') :
    (newObject d).Pairs D.pairing (newObject d') (Value.Twin D.relocation) :=
  (pairs_withHeap fun _ _ hh => ⟨hh.objects.next, hh.newObject hd⟩).bind fun _ _ hi =>
    pairs_pure (.object hi)

theorem pairs_newArray {items items' : Array Value} (h : Items.Twin D.relocation items items') :
    (newArray items).Pairs D.pairing (newArray items') (Value.Twin D.relocation) :=
  (pairs_withHeap fun _ _ hh => ⟨hh.arrays.next, hh.newArray h⟩).bind fun _ _ hi =>
    pairs_pure (.array hi)

theorem pairs_newFunction {literal : FunctionDef}
    (h : ∀ s ∈ literal.body, (Node.stmt s).IsDiscreet) (hs : Scope.Twin D.relocation scope scope') :
    (newFunction literal scope).Pairs D.pairing (newFunction literal scope')
      (Value.Twin D.relocation) := by
  have hc : Closure.Twin D.relocation ⟨literal, scope⟩ ⟨literal, scope'⟩ := ⟨rfl, h, hs⟩
  refine Pairs.bind (pairs_withHeap fun _ _ hh => ⟨hh.closures.next, hh.newClosure hc⟩) ?_
  exact fun _ _ hi => pairs_pure (.function hi)

theorem pairs_newScope (hs : Scope.Twin D.relocation scope scope') {f f' : Frame}
    (hf : Frame.Twin D.relocation f f') :
    (newScope scope f).Pairs D.pairing (newScope scope' f') (Scope.Twin D.relocation) :=
  (pairs_withHeap fun _ _ hh => ⟨hh.frames.next, hh.newFrame hf⟩).bind fun _ _ hi =>
    pairs_pure (.cons hi hs)

theorem pairs_raise (name message : String) {Q : α → β → Prop} :
    (raise name message : Run α).Pairs D.pairing (raise name message : Run β) Q :=
  (pairs_newObject (.cons ⟨rfl, .string _⟩ (.cons ⟨rfl, .string _⟩ .nil))).bind fun _ _ hv =>
    pairs_stop (.thrown hv)

theorem pairs_caught {e e' : Exception} (he : e.Twin D.relocation e') :
    (caught e).Pairs D.pairing (caught e') (Value.Twin D.relocation) := by
  cases he with
  | thrown hv => exact pairs_pure hv
  | uncaught path hv => exact pairs_pure hv
  | load fault =>
    exact pairs_newObject
      (.cons ⟨rfl, .string _⟩ (.cons ⟨rfl, .string _⟩ (.cons ⟨rfl, .string _⟩ .nil)))

theorem pairs_declare (hs : Scope.Twin D.relocation scope scope') (name : String)
    (hv : v.Twin D.relocation v') (mutable : Bool) :
    (declare scope name v mutable).Pairs D.pairing (declare scope' name v' mutable)
      fun _ _ => True := by
  cases hs with
  | nil => exact pairs_pure trivial
  | cons hi _ => exact pairs_modifyHeap fun _ _ hh => hh.declare hi name hv mutable

end Run

namespace Builtin

open Run

variable {this this' : Value} {args args' : List Value}

theorem pairs_push (hthis : this.Twin D.relocation this')
    (hargs : List.Forall₂ (Value.Twin D.relocation) args args') :
    (push this args).Pairs D.pairing (push this' args') (Value.Twin D.relocation) := by
  cases hthis with
  | array hi =>
    refine Pairs.bind (pairs_modifyHeap fun h h' hh => hh.modifyArray hi fun _ _ hitems => ?_) ?_
    · exact hitems.append hargs
    · refine fun _ _ _ => pairs_heap.bind fun h h' hh => pairs_pure ?_
      rw [(hh.array hi).size_eq]
      exact .number _
  | _ => exact pairs_raise _ _

theorem pairs_join (hthis : this.Twin D.relocation this')
    (hargs : List.Forall₂ (Value.Twin D.relocation) args args') :
    (join this args).Pairs D.pairing (join this' args') (Value.Twin D.relocation) := by
  refine pairs_heap.bind fun h h' hh => ?_
  cases hthis with
  | array hi =>
    have hitems := map_eq_map_of_forall₂ (hh.array hi)
      (f := fun v => if v.isAbsent then "" else h.display v)
      (g := fun v => if v.isAbsent then "" else h'.display v)
      fun v v' hv => by rw [hv.isAbsent_eq, hh.display_eq hv]
    refine pairs_pure ?_
    rw [hitems]
    cases hargs with
    | nil => exact .string _
    | cons hv _ =>
      have htext := hh.display_eq hv
      cases hv with
      | undefined => exact .string _
      | _ =>
        simp only [List.head?_cons, htext]
        exact .string _
  | _ => exact pairs_raise _ _

theorem pairs_call {key : String} {n : Native} (hn : arrayFunction? key = some n)
    (hthis : this.Twin D.relocation this')
    (hargs : List.Forall₂ (Value.Twin D.relocation) args args') :
    (call n this args).Pairs D.pairing (call n this' args') (Value.Twin D.relocation) := by
  unfold arrayFunction? at hn
  split at hn
  · cases hn
    exact pairs_push hthis hargs
  · cases hn
    exact pairs_join hthis hargs
  · contradiction

end Builtin

namespace Evaluate

open Run

variable {v v' w w' : Value} {scope scope' : Scope} {name : String}

theorem pairs_getProperty (hv : v.Twin D.relocation v') (key : String) :
    (getProperty v key).Pairs D.pairing (getProperty v' key) (Value.Twin D.relocation) := by
  refine pairs_heap.bind fun h h' hh => ?_
  obtain ⟨e, he, he'⟩ | ⟨a, a', ha, ha', htwin⟩ := hh.getProperty hv key
  · rw [he, he']
    exact pairs_raise _ _
  · rw [ha, ha']
    exact pairs_pure htwin

theorem pairs_putProperty (hv : v.Twin D.relocation v') (key : String)
    (hw : w.Twin D.relocation w') :
    (putProperty v key w).Pairs D.pairing (putProperty v' key w') fun _ _ => True := by
  refine pairs_heap.bind fun h h' hh => ?_
  rw [hh.putFault?_eq hv key]
  split
  · exact pairs_raise _ _
  · exact pairs_modifyHeap fun _ _ hh => hh.putProperty hv key hw

theorem pairs_getVariable (hs : Scope.Twin D.relocation scope scope') (hname : name ∉ sharedNames) :
    (getVariable scope name).Pairs D.pairing (getVariable scope' name)
      (Value.Twin D.relocation) := by
  refine pairs_heap.bind fun h h' hh => ?_
  have hlookup := hh.lookup? hs hname
  generalize h.lookup? scope name = o, h'.lookup? scope' name = o' at hlookup
  cases hlookup with
  | some hv => exact pairs_pure hv
  | none => exact pairs_raise _ _

theorem pairs_putVariable (hs : Scope.Twin D.relocation scope scope') (hname : name ∉ sharedNames)
    (hv : v.Twin D.relocation v') :
    (putVariable scope name v).Pairs D.pairing (putVariable scope' name v')
      fun _ _ => True := by
  refine pairs_heap.bind fun h h' hh => ?_
  rw [hh.assignFault?_eq hs hname]
  split
  · exact pairs_raise _ _
  · exact pairs_raise _ _
  · exact pairs_modifyHeap fun _ _ hh => hh.assign hs hname hv

theorem pairs_getPlace (hs : Scope.Twin D.relocation scope scope') {p p' : Place}
    (hp : p.Twin D.relocation p') :
    (getPlace scope p).Pairs D.pairing (getPlace scope' p') (Value.Twin D.relocation) := by
  cases hp with
  | «variable» hname => exact pairs_getVariable hs hname
  | property hv key => exact pairs_getProperty hv key

theorem pairs_putPlace (hs : Scope.Twin D.relocation scope scope') (hv : v.Twin D.relocation v')
    {p p' : Place} (hp : p.Twin D.relocation p') :
    (putPlace scope v p).Pairs D.pairing (putPlace scope' v' p') fun _ _ => True := by
  cases hp with
  | «variable» hname => exact pairs_putVariable hs hname hv
  | property hw key => exact pairs_putProperty hw key hv

theorem pairs_hoist (hs : Scope.Twin D.relocation scope scope') {statements : List Stmt}
    (h : ∀ s ∈ statements, (Node.stmt s).IsDiscreet) :
    (hoist scope statements).Pairs D.pairing (hoist scope' statements) fun _ _ => True := by
  fun_induction hoist scope statements with
  | case1 => exact pairs_pure trivial
  | case2 literal rest _ name hname ih =>
    obtain ⟨hliteral, hrest⟩ := List.forall_mem_cons.mp h
    rw [hoist, hname]
    refine (pairs_newFunction hliteral.declaration hs).bind fun f f' hf => ?_
    exact (pairs_declare hs name hf true).bind fun _ _ _ => ih hrest
  | case3 literal rest _ hname ih =>
    rw [hoist, hname]
    exact ih (List.forall_mem_cons.mp h).2
  | case4 s rest hnot ih =>
    rw [hoist]
    · exact ih (List.forall_mem_cons.mp h).2
    · exact hnot

theorem pairs_functionValue {literal : FunctionDef}
    (h : ∀ s ∈ literal.body, (Node.stmt s).IsDiscreet) (hs : Scope.Twin D.relocation scope scope') :
    (functionValue literal scope).Pairs D.pairing (functionValue literal scope')
      (Value.Twin D.relocation) := by
  unfold functionValue
  split
  · exact pairs_newFunction h hs
  · refine (pairs_newScope hs .empty).bind fun own own' hown => ?_
    refine (pairs_newFunction h hown).bind fun f f' hf => ?_
    exact (pairs_declare hown _ hf false).bind fun _ _ _ => pairs_pure hf

end Evaluate

end ModuleLoader
