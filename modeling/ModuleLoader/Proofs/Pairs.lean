import ModuleLoader.Proofs.Moments

/-! Two runs side by side. Plans that take the same steps, with what corresponds in place of what is
equal, end alike: both are cut off, or both have an outcome, and the outcomes correspond. -/
namespace ModuleLoader

open Script

/-- What corresponds in two runs: the machines that acts preserve, the exceptions, the tasks that
may be asked for, and what these give. -/
structure Pairing where
  holds : Machine → Machine → Prop
  throws : Exception → Exception → Prop
  admits : Task → Task → Prop
  gives : (t t' : Task) → t.Result → t'.Result → Prop

namespace Pairing

variable {α α' : Type}

/-- Both results are values, and these are so related; or both are exceptions that correspond. -/
inductive Results (P : Pairing) (Q : α → α' → Prop) :
    Except Exception α → Except Exception α' → Prop where
  | ok {a : α} {a' : α'} (h : Q a a') : Results P Q (.ok a) (.ok a')
  | error {e e' : Exception} (h : P.throws e e') : Results P Q (.error e) (.error e')

/-- Both runs are cut off, or both end, with such results. -/
inductive Ends (P : Pairing) (Q : α → α' → Prop) :
    Option (Except Exception α × Machine) → Option (Except Exception α' × Machine) → Prop where
  | cutOff : Ends P Q none none
  | ended {r : Except Exception α} {r' : Except Exception α'} {m m' : Machine}
      (hr : P.Results Q r r') (hm : P.holds m m') : Ends P Q (some (r, m)) (some (r', m'))

end Pairing

/-- From machines that correspond the two runs end alike. -/
def Run.Pairs {α α' : Type} (P : Pairing) (x : Run α) (x' : Run α') (Q : α → α' → Prop) : Prop :=
  ∀ m m', P.holds m m' → P.Ends Q (m.run x) (m'.run x')

def Plan.Pairs {α α' : Type} (P : Pairing) : Plan α → Plan α' → (α → α' → Prop) → Prop
  | done a, done a', Q => Q a a'
  | act x next, act x' next', Q => x.Pairs P x' fun b b' => (next b).Pairs P (next' b') Q
  | ask t next, ask t' next', Q =>
    P.admits t t' ∧ ∀ a a', P.gives t t' a a' → (next a).Pairs P (next' a') Q
  | attempt t next, attempt t' next', Q =>
    P.admits t t' ∧ ∀ r r', P.Results (P.gives t t') r r' → (next r).Pairs P (next' r') Q
  | _, _, _ => False

variable {P : Pairing}

/-! ### Runs -/

section Ends

variable {α α' β β' : Type} {Q : α → α' → Prop} {R : β → β' → Prop}
  {q : Option (Except Exception α × Machine)} {q' : Option (Except Exception α' × Machine)}

theorem Pairing.Ends.imp {Q' : α → α' → Prop} (h : P.Ends Q q q')
    (hQ : ∀ a a', Q a a' → Q' a a') : P.Ends Q' q q' := by
  cases h with
  | cutOff => exact .cutOff
  | ended hr hm =>
    refine .ended ?_ hm
    cases hr with
    | ok ha => exact .ok (hQ _ _ ha)
    | error he => exact .error he

theorem Pairing.Ends.bind {m m' : Machine} {x : Run α} {x' : Run α'} {f : α → Run β}
    {f' : α' → Run β'} (hx : P.Ends Q (m.run x) (m'.run x'))
    (hf : ∀ a a', Q a a' → (f a).Pairs P (f' a') R) :
    P.Ends R (m.run (x >>= f)) (m'.run (x' >>= f')) := by
  rw [Machine.run_bind, Machine.run_bind]
  generalize m.run x = q, m'.run x' = q' at hx
  cases hx with
  | cutOff => exact .cutOff
  | ended hr hm =>
    cases hr with
    | ok ha => exact hf _ _ ha _ _ hm
    | error he => exact .ended (.error he) hm

end Ends

namespace Run

variable {α α' β β' : Type} {x : Run α} {x' : Run α'} {Q : α → α' → Prop}

theorem Pairs.imp {Q' : α → α' → Prop} (h : x.Pairs P x' Q) (hQ : ∀ a a', Q a a' → Q' a a') :
    x.Pairs P x' Q' :=
  fun m m' hm => (h m m' hm).imp hQ

theorem Pairs.bind {f : α → Run β} {f' : α' → Run β'} {R : β → β' → Prop} (hx : x.Pairs P x' Q)
    (hf : ∀ a a', Q a a' → (f a).Pairs P (f' a') R) : (x >>= f).Pairs P (x' >>= f') R :=
  fun m m' hm => (hx m m' hm).bind hf

theorem pairs_of_ok (f : Machine → α × Machine) (f' : Machine → α' × Machine)
    (hx : ∀ m : Machine, m.run x = some (.ok (f m).1, (f m).2))
    (hx' : ∀ m : Machine, m.run x' = some (.ok (f' m).1, (f' m).2))
    (h : ∀ m m', P.holds m m' → Q (f m).1 (f' m').1 ∧ P.holds (f m).2 (f' m').2) :
    x.Pairs P x' Q := by
  intro m m' hm
  obtain ⟨hQ, hafter⟩ := h m m' hm
  rw [hx, hx']
  exact .ended (.ok hQ) hafter

theorem pairs_pure {a : α} {a' : α'} (h : Q a a') : (pure a : Run α).Pairs P (pure a') Q :=
  fun _ _ hm => .ended (.ok h) hm

theorem pairs_stop {e e' : Exception} (h : P.throws e e') :
    (stop e : Run α).Pairs P (stop e' : Run α') Q :=
  fun _ _ hm => .ended (.error h) hm

theorem pairs_resume {r : Except Exception α} {r' : Except Exception α'} (h : P.Results Q r r') :
    (resume r).Pairs P (resume r') Q :=
  fun _ _ hm => .ended h hm

theorem pairs_cutOff : (cutOff : Run α).Pairs P (cutOff : Run α') Q :=
  fun _ _ _ => .cutOff

theorem Pairs.attempt (hx : x.Pairs P x' Q) : (attempt x).Pairs P (attempt x') (P.Results Q) := by
  intro m m' hm
  have hends := hx m m' hm
  rw [Machine.run_attempt, Machine.run_attempt]
  generalize m.run x = q, m'.run x' = q' at hends
  cases hends with
  | cutOff => exact .cutOff
  | ended hr hm => exact .ended (.ok hr) hm

end Run

/-! ### Plans -/

namespace Plan

variable {α α' β β' : Type} {p : Plan α} {p' : Plan α'} {Q : α → α' → Prop}

theorem Pairs.bind {f : α → Plan β} {f' : α' → Plan β'} {R : β → β' → Prop} (hp : p.Pairs P p' Q)
    (hf : ∀ a a', Q a a' → (f a).Pairs P (f' a') R) : (p >>= f).Pairs P (p' >>= f') R := by
  induction p generalizing p' with
  | done a =>
    cases p' with
    | done a' => exact hf a a' hp
    | _ => exact hp.elim
  | act x next ih =>
    cases p' with
    | act x' next' => exact Run.Pairs.imp hp fun b b' hb => ih b hb
    | _ => exact hp.elim
  | ask t next ih =>
    cases p' with
    | ask t' next' => exact ⟨hp.1, fun a a' ha => ih a (hp.2 a a' ha)⟩
    | _ => exact hp.elim
  | attempt t next ih =>
    cases p' with
    | attempt t' next' => exact ⟨hp.1, fun r r' hr => ih r (hp.2 r r' hr)⟩
    | _ => exact hp.elim

theorem Pairs.carryOut (hp : p.Pairs P p' Q) {perform : (t : Task) → Run t.Result}
    (h : ∀ t t', P.admits t t' → (perform t).Pairs P (perform t') (P.gives t t')) :
    (p.carryOut perform).Pairs P (p'.carryOut perform) Q := by
  induction p generalizing p' with
  | done a =>
    cases p' with
    | done a' => exact Run.pairs_pure hp
    | _ => exact hp.elim
  | act x next ih =>
    cases p' with
    | act x' next' => exact Run.Pairs.bind hp fun b b' hb => ih b hb
    | _ => exact hp.elim
  | ask t next ih =>
    cases p' with
    | ask t' next' => exact (h t t' hp.1).bind fun a a' ha => ih a (hp.2 a a' ha)
    | _ => exact hp.elim
  | attempt t next ih =>
    cases p' with
    | attempt t' next' => exact (h t t' hp.1).attempt.bind fun r r' hr => ih r (hp.2 r r' hr)
    | _ => exact hp.elim

end Plan

/-! ### Tasks -/

/-- With so much fuel, tasks that correspond end alike. -/
def Pairing.Performs (P : Pairing) (n : Nat) : Prop :=
  ∀ t t', P.admits t t' →
    (Evaluate.perform n t).Pairs P (Evaluate.perform n t') (P.gives t t')

/-- Tasks that correspond end alike if they do so as long as the tasks that they ask for do. -/
theorem Pairing.performs
    (h : ∀ n, P.Performs n → ∀ t t', P.admits t t' →
      ((Plan.ofTask n t).carryOut (Evaluate.perform n)).Pairs P
        ((Plan.ofTask n t').carryOut (Evaluate.perform n)) (P.gives t t')) (n : Nat) :
    P.Performs n := by
  induction n with
  | zero => exact fun _ _ _ => Run.pairs_cutOff
  | succ n ih => exact h n ih

end ModuleLoader
