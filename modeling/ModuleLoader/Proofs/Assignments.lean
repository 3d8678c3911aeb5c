import ModuleLoader.Proofs.Growth

/-! What an assignment changes. It goes to the innermost binding of its name, and that binding
counts for every scope in which it is the innermost, whoever holds the scope. Nothing is assumed of
scopes: they may share frames in any way. -/
namespace ModuleLoader

open Script

namespace Script.Heap

variable {h h' : Heap} {scope : Scope} {id : FrameId} {name : String} {v : Value}

/-- The innermost frame of a scope that binds a name. -/
def binder? (h : Heap) (scope : Scope) (name : String) : Option FrameId :=
  scope.find? fun id => (h.frame id).contains name

theorem binding?_eq (h : Heap) (scope : Scope) (name : String) :
    h.binding? scope name = (h.binder? scope name).bind fun id => (h.frame id).get? name := by
  induction scope with
  | nil => rfl
  | cons id outer ih =>
    rw [binding?, binder?, List.find?_cons, Dict.contains]
    cases hb : (h.frame id).get? name with
    | none => exact ih
    | some b => exact hb.symm

theorem contains_of_binder? (hid : h.binder? scope name = some id) :
    (h.frame id).contains name = true :=
  List.find?_some (p := fun id => (h.frame id).contains name) hid

/-- The binding that is found in the frame. -/
theorem binding?_of_binder? (hid : h.binder? scope name = some id) :
    ∃ b, (h.frame id).get? name = some b ∧ h.binding? scope name = some b := by
  obtain ⟨b, hb⟩ := Option.isSome_iff_exists.mp (contains_of_binder? hid)
  refine ⟨b, hb, ?_⟩
  rw [binding?_eq, hid]
  exact hb

theorem assign_eq (h : Heap) (scope : Scope) (name : String) (v : Value) :
    h.assign scope name v =
      match h.binder? scope name with
      | some id => h.declare id name v true
      | none => h := by
  induction scope with
  | nil => rfl
  | cons id outer ih =>
    rw [assign, binder?, List.find?_cons]
    cases (h.frame id).contains name with
    | true => rfl
    | false => exact ih

theorem assignFault?_eq_undeclared_iff :
    h.assignFault? scope name = some .undeclared ↔ h.lookup? scope name = none := by
  rw [assignFault?, lookup?, Option.map_eq_none_iff]
  cases h.binding? scope name with
  | none => simp
  | some b => cases hb : b.mutable <;> simp [hb]

theorem assignFault?_eq_constant_iff : h.assignFault? scope name = some .constant ↔
    ∃ id b, h.binder? scope name = some id ∧ (h.frame id).get? name = some b ∧
      b.mutable = false := by
  rw [assignFault?]
  cases hid : h.binder? scope name with
  | none => simp [binding?_eq, hid]
  | some id =>
    obtain ⟨b, hb, hbinding⟩ := binding?_of_binder? hid
    cases hmutable : b.mutable <;> simp [hbinding, hb, hmutable]

theorem binder?_of_no_fault (hfault : h.assignFault? scope name = none) :
    ∃ id b, h.binder? scope name = some id ∧ (h.frame id).get? name = some b ∧
      b.mutable = true := by
  rw [assignFault?] at hfault
  cases hid : h.binder? scope name with
  | none => simp [binding?_eq, hid] at hfault
  | some id =>
    obtain ⟨b, hb, hbinding⟩ := binding?_of_binder? hid
    cases hmutable : b.mutable with
    | false => simp [hbinding, hmutable] at hfault
    | true => exact ⟨id, b, rfl, hb, hmutable⟩

/-- From one heap to the other, the value that a name has in a frame was replaced by another, and
all other bindings of all frames are as they were. -/
structure Replaces (h h' : Heap) (id : FrameId) (name : String) (v : Value) : Prop where
  bound : ∃ b, (h.frame id).get? name = some b ∧
    (h'.frame id).get? name = some { b with value := v }
  others : ∀ id' name', ¬(id' = id ∧ name' = name) →
    (h'.frame id').get? name' = (h.frame id').get? name'

theorem replaces_declare {b : Binding} (hb : (h.frame id).get? name = some b)
    (hmutable : b.mutable = true) (v : Value) :
    h.Replaces (h.declare id name v true) id name v := by
  have hid : id < h.frames.size := by
    by_contra hsize
    rw [frame_eq_nil (Nat.le_of_not_lt hsize)] at hb
    cases hb
  constructor
  · refine ⟨b, hb, ?_⟩
    rw [frame_declare hid, Dict.get?_insert, if_pos rfl, hmutable]
  · intro id' name' hne
    by_cases hframe : id = id'
    · subst hframe
      rw [frame_declare hid, Dict.get?_insert, if_neg fun hname => hne ⟨rfl, hname.symm⟩]
    · rw [frame_declare_of_ne hframe]

namespace Replaces

variable (hh : h.Replaces h' id name v)

include hh

theorem mutable_eq (id' : FrameId) (name' : String) :
    ((h'.frame id').get? name').map Binding.mutable =
      ((h.frame id').get? name').map Binding.mutable := by
  by_cases hbinding : id' = id ∧ name' = name
  · obtain ⟨rfl, rfl⟩ := hbinding
    obtain ⟨b, hb, hb'⟩ := hh.bound
    rw [hb, hb']
    rfl
  · rw [hh.others id' name' hbinding]

theorem contains_eq (id' : FrameId) (name' : String) :
    (h'.frame id').contains name' = (h.frame id').contains name' := by
  have hmutable := congrArg Option.isSome (hh.mutable_eq id' name')
  rwa [Option.isSome_map, Option.isSome_map] at hmutable

theorem binder?_eq (scope : Scope) (name' : String) :
    h'.binder? scope name' = h.binder? scope name' := by
  simp only [binder?, hh.contains_eq]

/-- The new value is found by the name from all scopes in which that binding is the innermost. -/
theorem lookup?_eq (hid : h.binder? scope name = some id) : h'.lookup? scope name = some v := by
  obtain ⟨b, -, hb'⟩ := hh.bound
  rw [lookup?, binding?_eq, hh.binder?_eq, hid, Option.bind_some, hb']
  rfl

theorem lookup?_eq_of_not {name' : String}
    (hne : ¬(h.binder? scope name' = some id ∧ name' = name)) :
    h'.lookup? scope name' = h.lookup? scope name' := by
  rw [lookup?, lookup?, binding?_eq, binding?_eq, hh.binder?_eq]
  cases hid : h.binder? scope name' with
  | none => rfl
  | some id' =>
    have hothers := hh.others id' name' fun hsame => hne ⟨hsame.1 ▸ hid, hsame.2⟩
    rw [Option.bind_some, Option.bind_some, hothers]

end Replaces

end Script.Heap

namespace Machine

variable {m : Machine} {scope : Scope} {name : String} {v : Value}

theorem run_putVariable_undeclared (hfault : m.heap.assignFault? scope name = some .undeclared) :
    m.run (Evaluate.putVariable scope name v) =
      some (.error (.thrown (.object m.heap.objects.size)),
        m.raised "ReferenceError" (name ++ " is not defined")) := by
  unfold Evaluate.putVariable
  rw [run_bind_ok run_heap, hfault]
  exact run_raise _ _

theorem run_putVariable_constant (hfault : m.heap.assignFault? scope name = some .constant) :
    m.run (Evaluate.putVariable scope name v) =
      some (.error (.thrown (.object m.heap.objects.size)),
        m.raised "TypeError" "Assignment to constant variable.") := by
  unfold Evaluate.putVariable
  rw [run_bind_ok run_heap, hfault]
  exact run_raise _ _

theorem run_putVariable_ok (hfault : m.heap.assignFault? scope name = none) :
    m.run (Evaluate.putVariable scope name v) =
      some (.ok (), { m with heap := m.heap.assign scope name v }) := by
  unfold Evaluate.putVariable
  rw [run_bind_ok run_heap, hfault]
  exact run_modifyHeap _

end Machine

/-- An assignment fails on a name that is not found, and on one of which the innermost binding is
constant, and then no binding in any scope changes; on all others it succeeds. It gives the
innermost binding of the name the new value: from every scope in which that binding is the
innermost, the name has the new value, and all else that is found from any scope is as it was, as is
whether bindings may be assigned to. -/
theorem Machine.assignment_exact (m : Machine) (scope : Scope) (name : String) (v : Value) :
    (m.heap.assignFault? scope name = some .undeclared ↔ m.heap.lookup? scope name = none) ∧
    (m.heap.assignFault? scope name = some .constant ↔ ∃ id b,
      m.heap.binder? scope name = some id ∧ (m.heap.frame id).get? name = some b ∧
        b.mutable = false) ∧
    (m.heap.assignFault? scope name = some .undeclared →
      m.run (Evaluate.putVariable scope name v) =
        some (.error (.thrown (.object m.heap.objects.size)),
          m.raised "ReferenceError" (name ++ " is not defined"))) ∧
    (m.heap.assignFault? scope name = some .constant →
      m.run (Evaluate.putVariable scope name v) =
        some (.error (.thrown (.object m.heap.objects.size)),
          m.raised "TypeError" "Assignment to constant variable.")) ∧
    (∀ error message, (m.raised error message).heap.frames = m.heap.frames) ∧
    (m.heap.assignFault? scope name = none → ∃ id h', m.heap.binder? scope name = some id ∧
      m.run (Evaluate.putVariable scope name v) = some (.ok (), { m with heap := h' }) ∧
      (∀ scope', m.heap.binder? scope' name = some id → h'.lookup? scope' name = some v) ∧
      (∀ scope' name', ¬(m.heap.binder? scope' name' = some id ∧ name' = name) →
        h'.lookup? scope' name' = m.heap.lookup? scope' name') ∧
      ∀ id' name', ((h'.frame id').get? name').map Binding.mutable =
        ((m.heap.frame id').get? name').map Binding.mutable) := by
  refine ⟨Heap.assignFault?_eq_undeclared_iff, Heap.assignFault?_eq_constant_iff,
    run_putVariable_undeclared, run_putVariable_constant, fun _ _ => rfl, fun hfault => ?_⟩
  obtain ⟨id, b, hid, hb, hmutable⟩ := Heap.binder?_of_no_fault hfault
  have hreplaces := Heap.replaces_declare hb hmutable v
  refine ⟨id, m.heap.declare id name v true, hid, ?_, fun scope' => hreplaces.lookup?_eq,
    fun scope' name' => hreplaces.lookup?_eq_of_not, hreplaces.mutable_eq⟩
  rw [run_putVariable_ok hfault, Heap.assign_eq, hid]

/-- A constant `x` in the outermost frame, and another `x` in a frame of its own. -/
def Sample.shadowed : Heap :=
  { Heap.empty with
    frames := #[[("x", ⟨.null, false⟩)], [("x", ⟨.null, true⟩)], [("y", ⟨.null, true⟩)]] }

theorem Machine.assignment_exact_sample :
    (∃ h', (Sample.machineWith Sample.shadowed).run
        (Evaluate.putVariable [2, 1, 0] "x" (.bool true)) =
          some (.ok (), Sample.machineWith h') ∧
      h'.lookup? [1, 0] "x" = some (.bool true) ∧ h'.lookup? [2, 0] "x" = some .null) ∧
    (Sample.machineWith Sample.shadowed).run (Evaluate.putVariable [2, 0] "x" (.bool true)) =
      some (.error (.thrown (.object 0)), (Sample.machineWith Sample.shadowed).raised "TypeError"
        "Assignment to constant variable.") ∧
    (Sample.machineWith Sample.shadowed).run (Evaluate.putVariable [1, 0] "y" (.bool true)) =
      some (.error (.thrown (.object 0)), (Sample.machineWith Sample.shadowed).raised
        "ReferenceError" "y is not defined") := by
  have hexact := assignment_exact (Sample.machineWith Sample.shadowed)
  obtain ⟨-, -, -, -, -, hassigned⟩ := hexact [2, 1, 0] "x" (.bool true)
  obtain ⟨-, -, -, hconstant, -⟩ := hexact [2, 0] "x" (.bool true)
  obtain ⟨-, -, hundeclared, -⟩ := hexact [1, 0] "y" (.bool true)
  obtain ⟨id, h', hid, hrun, hnew, hothers, -⟩ := hassigned rfl
  obtain rfl : 1 = id := Option.some.inj hid
  refine ⟨⟨h', hrun, hnew [1, 0] rfl, ?_⟩, hconstant rfl, hundeclared rfl⟩
  exact hothers [2, 0] "x" fun hsame => absurd (Option.some.inj hsame.1) (by decide)

end ModuleLoader
