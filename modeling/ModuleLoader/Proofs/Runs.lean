import ModuleLoader.Run.Session

/-! Laws of runs: what a composed run does, told by what its parts do. A run that is cut off has no
outcome, and no law gives it one. -/
namespace ModuleLoader

open Script

namespace Machine

variable {α β : Type} {m m' : Machine} {x : Run α} {f : α → Run β}

@[simp] theorem run_pure (a : α) : m.run (pure a) = some (.ok a, m) := rfl

@[simp] theorem run_cutOff : m.run (Run.cutOff : Run α) = none := rfl

@[simp] theorem run_stop (e : Exception) : m.run (Run.stop e : Run α) = some (.error e, m) := rfl

@[simp] theorem run_resume (r : Except Exception α) : m.run (Run.resume r) = some (r, m) := rfl

@[simp] theorem run_machine : m.run Run.machine = some (.ok m, m) := rfl

@[simp] theorem run_heap : m.run Run.heap = some (.ok m.heap, m) := rfl

@[simp] theorem run_withHeap (g : Heap → α × Heap) :
    m.run (Run.withHeap g) = some (.ok (g m.heap).1, { m with heap := (g m.heap).2 }) := rfl

@[simp] theorem run_modifyHeap (g : Heap → Heap) :
    m.run (Run.modifyHeap g) = some (.ok (), { m with heap := g m.heap }) := rfl

@[simp] theorem run_modifyLoader (g : Loader → Loader) :
    m.run (Run.modifyLoader g) = some (.ok (), { m with loader := g m.loader }) := rfl

@[simp] theorem run_enter : m.run Run.enter =
    some (.ok (), { m with depth := m.depth + 1, deepest := max m.deepest (m.depth + 1) }) := rfl

@[simp] theorem run_leave : m.run Run.leave =
    some (.ok (), { m with depth := m.depth - 1 }) := rfl

/-- The machine in which an error of this name was raised: its object is the last of the heap. -/
def raised (m : Machine) (name message : String) : Machine :=
  { m with heap :=
    (m.heap.newObject [("name", .string name), ("message", .string message)]).2 }

theorem run_raise (name message : String) : m.run (Run.raise name message : Run α) =
    some (.error (.thrown (.object m.heap.objects.size)), m.raised name message) := rfl

theorem run_bind : m.run (x >>= f) =
    match m.run x with
    | none => none
    | some (.ok a, m') => m'.run (f a)
    | some (.error e, m') => some (.error e, m') := by
  show (x.run m).bind _ = _
  unfold run
  rcases x.run m with _ | ⟨_ | a, m'⟩ <;> rfl

theorem run_bind_ok {a : α} (h : m.run x = some (.ok a, m')) :
    m.run (x >>= f) = m'.run (f a) := by
  rw [run_bind, h]

theorem run_bind_error {e : Exception} (h : m.run x = some (.error e, m')) :
    m.run (x >>= f) = some (.error e, m') := by
  rw [run_bind, h]

theorem run_attempt : m.run (Run.attempt x) = (m.run x).map fun r => (.ok r.1, r.2) := by
  show (x.run m).bind _ = _
  unfold run
  rcases x.run m with _ | ⟨r, m'⟩ <;> rfl

/-- A composed run that has an outcome ended in its first part, or went on with the second. -/
theorem run_bind_eq_some {r : Except Exception β} (h : m.run (x >>= f) = some (r, m')) :
    (∃ e, m.run x = some (.error e, m') ∧ r = .error e) ∨
      ∃ a m₁, m.run x = some (.ok a, m₁) ∧ m₁.run (f a) = some (r, m') := by
  rw [run_bind] at h
  split at h
  · contradiction
  · rename_i a m₁ hx
    exact .inr ⟨a, m₁, hx, h⟩
  · rename_i e m₁ hx
    obtain ⟨rfl, rfl⟩ := Prod.mk.inj (Option.some.inj h)
    exact .inl ⟨e, hx, rfl⟩

theorem run_call_builtin {f : Native} (hf : ∀ home, f ≠ .require home) (n : Nat) (this : Value)
    (args : List Value) : m.run (Evaluate.call (n + 1) (.native f) this args) =
      m.run (Builtin.call f this args) := by
  cases f with
  | require home => exact absurd rfl (hf home)
  | _ =>
    show m.run (Builtin.call _ this args >>= fun v => pure v) = _
    rw [bind_pure]

end Machine

def Sample.machineWith (h : Heap) : Machine :=
  { Machine.create .none (.kept "") 1 with heap := h }

end ModuleLoader
