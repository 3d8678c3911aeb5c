import ModuleLoader.Proofs.Runs

/-! The order of declarations. The functions that a list of statements declares are bound before its
first statement is executed, and to execute a declaration does nothing. So it makes no difference
where among the other statements the declarations stand; only their own order counts. -/
namespace ModuleLoader

open Script

namespace Script

def Stmt.isFunction : Stmt → Bool
  | .function _ => true
  | _ => false

/-- The function declarations among some statements, and behind them the other statements. -/
def functionsFirst (statements : List Stmt) : List Stmt :=
  statements.filter (fun s => s.isFunction) ++ statements.filter (fun s => !s.isFunction)

/-- Two lists have the same declarations in the same order, and the same other statements in the
same order. -/
structure SameApart (statements statements' : List Stmt) : Prop where
  functions : statements.filter (fun s => s.isFunction) =
    statements'.filter (fun s => s.isFunction)
  others : statements.filter (fun s => !s.isFunction) =
    statements'.filter (fun s => !s.isFunction)

theorem sameApart_functionsFirst (statements : List Stmt) :
    SameApart (functionsFirst statements) statements := by
  constructor
  · simp [functionsFirst, List.filter_append, List.filter_filter]
  · simp [functionsFirst, List.filter_append, List.filter_filter]

theorem SameApart.isEmpty_eq {statements statements' : List Stmt}
    (h : SameApart statements statements') : statements.isEmpty = statements'.isEmpty := by
  have hparts (l : List Stmt) :
      ((l.filter fun s => s.isFunction) ++ l.filter fun s => !s.isFunction).Perm l :=
    List.filter_append_perm _ l
  rw [← (hparts statements).isEmpty_eq, h.functions, h.others, (hparts statements').isEmpty_eq]

end Script

namespace Evaluate

theorem hoist_filter (scope : Scope) (statements : List Stmt) :
    hoist scope (statements.filter fun s => s.isFunction) = hoist scope statements := by
  induction statements with
  | nil => rfl
  | cons s rest ih =>
    cases s with
    | function literal => rw [List.filter_cons_of_pos (by rfl), hoist, hoist, ih]
    | _ => exact ih

end Evaluate

namespace Plan

variable (scope : Scope)

theorem carryOut_sequence_cons (perform : (t : Task) → Run t.Result) (s : Stmt)
    (rest : List Stmt) : (sequence scope (s :: rest)).carryOut perform =
      perform (.statement s scope) >>= fun
        | .normal => (sequence scope rest).carryOut perform
        | abrupt => pure abrupt := by
  show perform (.statement s scope) >>= _ = _
  congr 1
  funext c
  cases c <;> rfl

/-- Where there is fuel to execute a statement, declarations are passed over. -/
theorem carryOut_sequence_filter (n : Nat) (statements : List Stmt) :
    (sequence scope (statements.filter fun s => !s.isFunction)).carryOut
      (Evaluate.perform (n + 1)) =
        (sequence scope statements).carryOut (Evaluate.perform (n + 1)) := by
  induction statements with
  | nil => rfl
  | cons s rest ih =>
    cases s with
    | function literal =>
      have hpass : Evaluate.perform (n + 1) (.statement (.function literal) scope) =
          pure Completion.normal := rfl
      rw [carryOut_sequence_cons, hpass, pure_bind]
      exact ih
    | _ =>
      rw [List.filter_cons_of_pos (by rfl), carryOut_sequence_cons, carryOut_sequence_cons, ih]

/-- Where there is none, the first statement cuts the run off, whatever it is. -/
theorem carryOut_sequence_zero (statements : List Stmt) :
    (sequence scope statements).carryOut (Evaluate.perform 0) =
      if statements.isEmpty then pure .normal else Run.cutOff := by
  cases statements <;> rfl

theorem carryOut_sequence_eq {statements statements' : List Stmt}
    (h : SameApart statements statements') (n : Nat) :
    (sequence scope statements).carryOut (Evaluate.perform n) =
      (sequence scope statements').carryOut (Evaluate.perform n) := by
  -- without fuel not even a declaration is passed over, but then lists differ by being empty only
  cases n with
  | zero => rw [carryOut_sequence_zero, carryOut_sequence_zero, h.isEmpty_eq]
  | succ n => rw [← carryOut_sequence_filter, h.others, carryOut_sequence_filter]

end Plan

theorem Evaluate.perform_body_eq {statements statements' : List Stmt}
    (h : SameApart statements statements') (fuel : Nat) (scope : Scope) :
    perform fuel (.body statements scope) = perform fuel (.body statements' scope) := by
  cases fuel with
  | zero => rfl
  | succ n =>
    show hoist scope statements >>=
        (fun _ => (Plan.sequence scope statements).carryOut (perform n)) =
      hoist scope statements' >>= fun _ => (Plan.sequence scope statements').carryOut (perform n)
    rw [← hoist_filter, h.functions, hoist_filter, Plan.carryOut_sequence_eq scope h]

/-- A list of statements does the same from every machine, in every scope, if its function
declarations are moved to its front, where they keep their order as the other statements keep
theirs: it ends in the same completion or the same exception, or is cut off, and leaves the same
machine. -/
theorem Machine.run_functionsFirst (m : Machine) (fuel : Nat) (statements : List Stmt)
    (scope : Scope) : m.run (Evaluate.perform fuel (.body (functionsFirst statements) scope)) =
      m.run (Evaluate.perform fuel (.body statements scope)) := by
  rw [Evaluate.perform_body_eq (sameApart_functionsFirst statements)]

end ModuleLoader
