import Mathlib.Logic.Relation
import ModuleLoader.Proofs.Runs

/-! Performances seen from inside. A moment has a task that is about to be performed or just ended,
and below it the tasks that wait for it, each with what it does after that. The moments come from
the plans that `Evaluate.perform` carries out, and the two agree: a task that ends does so at the
end of a sequence of moments, and a sequence of moments ends as the task does. -/
namespace ModuleLoader

open Script

/-- Where a plan pauses: at its end, or for a task, with what it does after that. -/
inductive Pause (α : Type) : Type 1 where
  | ended (r : Except Exception α)
  | asked (t : Task) (next : Except Exception t.Result → Plan α)

namespace Plan

variable {α β : Type}

/-- Goes on with the result of a task, of which an exception ends the plan. -/
def passing (next : β → Plan α) : Except Exception β → Plan α
  | .ok b => next b
  | .error e => act (Run.stop e) done

def advance : Plan α → Machine → Option (Pause α × Machine)
  | done a, m => some (.ended (.ok a), m)
  | act x next, m =>
    match m.run x with
    | none => none
    | some (.error e, m) => some (.ended (.error e), m)
    | some (.ok b, m) => (next b).advance m
  | ask t next, m => some (.asked t (passing next), m)
  | attempt t next, m => some (.asked t next, m)

theorem advance_act {x : Run β} {next : β → Plan α} {b : β} {m m' : Machine}
    (h : m.run x = some (.ok b, m')) : (act x next).advance m = (next b).advance m' := by
  simp only [advance, h]

end Plan

/-- The tasks that wait for a task, innermost first: each with the fuel that its own tasks have, and
with what it does when the task it waits for has ended. -/
inductive Stack : Task → Type 1 where
  | bottom (t : Task) : Stack t
  | frame (fuel : Nat) (t : Task) {s : Task} (next : Except Exception s.Result → Plan t.Result)
      (below : Stack t) : Stack s

/-- A moment in the life of a machine. -/
inductive Moment : Type 1 where
  /-- Nothing is being done; the host has the say. -/
  | resting (m : Machine)
  | entering (fuel : Nat) (t : Task) (stack : Stack t) (m : Machine)
  | leaving (t : Task) (r : Except Exception t.Result) (stack : Stack t) (m : Machine)

def Pause.moment (n : Nat) (t : Task) (stack : Stack t) (m : Machine) : Pause t.Result → Moment
  | ended r => .leaving t r stack m
  | asked s next => .entering n s (.frame n t next stack) m

namespace Moment

def machine : Moment → Machine
  | resting m | entering _ _ _ m | leaving _ _ _ m => m

def step : Moment → Option Moment
  | resting _ => none
  | entering 0 _ _ _ => none
  | entering (n + 1) t stack m =>
    ((Plan.ofTask n t).advance m).map fun q => q.1.moment n t stack q.2
  | leaving _ _ (.bottom _) _ => none
  | leaving _ r (.frame n t next below) m =>
    ((next r).advance m).map fun q => q.1.moment n t below q.2

abbrev Steps : Moment → Moment → Prop :=
  Relation.ReflTransGen fun a b => a.step = some b

end Moment

/-! ### Moments and performances -/

namespace Plan

variable {α : Type} {m m' : Machine}

theorem run_carryOut (perform : (t : Task) → Run t.Result) (p : Plan α) :
    m.run (p.carryOut perform) =
      match p.advance m with
      | none => none
      | some (.ended r, m) => some (r, m)
      | some (.asked t next, m) =>
        (m.run (perform t)).bind fun q => q.2.run ((next q.1).carryOut perform) := by
  induction p generalizing m with
  | done a => rfl
  | act x next ih =>
    simp only [carryOut, advance, Machine.run_bind]
    rcases m.run x with _ | ⟨_ | b, m'⟩
    · rfl
    · rfl
    · exact ih b
  | ask t next =>
    simp only [carryOut, advance, Machine.run_bind]
    rcases m.run (perform t) with _ | ⟨_ | a, m'⟩ <;> rfl
  | attempt t next =>
    simp only [carryOut, advance, Machine.run_bind, Machine.run_attempt]
    rcases m.run (perform t) with _ | ⟨r, m'⟩ <;> rfl

/-- A plan that is carried out pauses, and moments lead from there to its end. What is known of the
tasks it asks for is an argument, for the fuel of these is less. -/
theorem steps_of_carryOut {n : Nat}
    (perform : ∀ {t : Task} {r : Except Exception t.Result} {m m' : Machine},
      m.run (Evaluate.perform n t) = some (r, m') →
        ∀ stack, Moment.Steps (.entering n t stack m) (.leaving t r stack m'))
    {t : Task} (p : Plan t.Result) {r : Except Exception t.Result} (stack : Stack t)
    (h : m.run (p.carryOut (Evaluate.perform n)) = some (r, m')) :
    ∃ q m₁, p.advance m = some (q, m₁) ∧
      Moment.Steps (q.moment n t stack m₁) (.leaving t r stack m') := by
  -- The steps from the end of a task that was asked for, given those of the plan that goes on.
  have resume {s : Task} {next : Except Exception s.Result → Plan t.Result} {m m₁ : Machine}
      {a : Except Exception s.Result} (hs : m.run (Evaluate.perform n s) = some (a, m₁))
      (hnext : ∃ q m₂, (next a).advance m₁ = some (q, m₂) ∧
        Moment.Steps (q.moment n t stack m₂) (.leaving t r stack m')) :
      Moment.Steps (.entering n s (.frame n t next stack) m) (.leaving t r stack m') := by
    obtain ⟨q, m₂, hq, hsteps⟩ := hnext
    refine (perform hs _).trans (.head ?_ hsteps)
    simp only [Moment.step, hq, Option.map_some]
  induction p generalizing m with
  | done a =>
    obtain ⟨rfl, rfl⟩ := Prod.mk.inj (Option.some.inj h)
    exact ⟨_, _, rfl, .refl⟩
  | act x next ih =>
    obtain ⟨e, hx, rfl⟩ | ⟨b, m₁, hx, hb⟩ := Machine.run_bind_eq_some h
    · refine ⟨.ended (.error e), m', ?_, .refl⟩
      simp only [advance, hx]
    · simpa only [advance, hx] using ih b hb
  | ask s next ih =>
    refine ⟨_, _, rfl, ?_⟩
    obtain ⟨e, hs, rfl⟩ | ⟨a, m₁, hs, ha⟩ := Machine.run_bind_eq_some h
    · exact resume hs ⟨_, _, rfl, .refl⟩
    · exact resume hs (ih a ha)
  | attempt s next ih =>
    refine ⟨_, _, rfl, ?_⟩
    simp only [carryOut, Machine.run_bind, Machine.run_attempt] at h
    rcases hs : m.run (Evaluate.perform n s) with _ | ⟨a, m₁⟩
    · simp only [hs, Option.map_none] at h
      contradiction
    · simp only [hs, Option.map_some] at h
      exact resume hs (ih a h)

end Plan

/-- The end of a task. -/
structure Ending where
  task : Task
  result : Except Exception task.Result
  machine : Machine

namespace Stack

/-- How the task at the bottom ends, if the task on top ends so. -/
def finish {t : Task} : Stack t → Except Exception t.Result → Machine → Option Ending
  | bottom t, r, m => some ⟨t, r, m⟩
  | frame n _ next below, r, m =>
    (m.run ((next r).carryOut (Evaluate.perform n))).bind fun q => below.finish q.1 q.2

end Stack

namespace Moment

def finish : Moment → Option Ending
  | resting _ => none
  | entering n t stack m => (m.run (Evaluate.perform n t)).bind fun q => stack.finish q.1 q.2
  | leaving _ r stack m => stack.finish r m

theorem finish_carryOut {n : Nat} {t : Task} {p : Plan t.Result} {stack : Stack t} {m m' : Machine}
    {q : Pause t.Result} (h : p.advance m = some (q, m')) :
    ((m.run (p.carryOut (Evaluate.perform n))).bind fun q => stack.finish q.1 q.2) =
      (q.moment n t stack m').finish := by
  rw [Plan.run_carryOut, h]
  cases q with
  | ended r => rfl
  | asked s next => simp only [Pause.moment, finish, Stack.finish, Option.bind_assoc]

theorem finish_step {a b : Moment} (h : a.step = some b) : a.finish = b.finish := by
  match a with
  | resting _ | entering 0 _ _ _ | leaving _ _ (.bottom _) _ => contradiction
  | entering (n + 1) t stack m =>
    obtain ⟨⟨q, m'⟩, hq, rfl⟩ := Option.map_eq_some_iff.mp h
    exact finish_carryOut hq
  | leaving _ r (.frame n t next below) m =>
    obtain ⟨⟨q, m'⟩, hq, rfl⟩ := Option.map_eq_some_iff.mp h
    exact finish_carryOut hq

theorem Steps.finish_eq {a b : Moment} (h : Steps a b) : a.finish = b.finish := by
  induction h with
  | refl => rfl
  | tail _ hstep ih => rw [ih, finish_step hstep]

/-- A task that ends does so at the end of a sequence of moments, whatever waits for it. -/
theorem steps_of_perform {n : Nat} {t : Task} {r : Except Exception t.Result} {m m' : Machine}
    (h : m.run (Evaluate.perform n t) = some (r, m')) (stack : Stack t) :
    Steps (.entering n t stack m) (.leaving t r stack m') := by
  induction n generalizing t r m m' with
  | zero => contradiction
  | succ n ih =>
    obtain ⟨q, m₁, hq, hsteps⟩ := Plan.steps_of_carryOut ih (Plan.ofTask n t) stack h
    refine .head ?_ hsteps
    simp only [step, hq, Option.map_some]

/-- The moments from the entering of a task to its end tell exactly how it is performed. -/
theorem steps_iff_perform {n : Nat} {t : Task} {r : Except Exception t.Result} {m m' : Machine} :
    Steps (.entering n t (.bottom t) m) (.leaving t r (.bottom t) m') ↔
      m.run (Evaluate.perform n t) = some (r, m') := by
  constructor
  · intro h
    obtain ⟨⟨r', m₁⟩, hrun, heq⟩ := Option.bind_eq_some_iff.mp (h.finish_eq.trans rfl)
    simp only [Stack.finish, Option.some.injEq, Ending.mk.injEq, heq_eq_eq, true_and] at heq
    rw [hrun, heq.1, heq.2]
  · intro h
    exact steps_of_perform h _

end Moment

end ModuleLoader
