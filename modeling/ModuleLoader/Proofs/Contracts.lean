import ModuleLoader.Proofs.Frames

/-! Contracts between the tasks of a run. A plan that keeps one leaves the machine as it should be
with every act, asks for admitted tasks only, and, if these give what they owe, gives what it owes
itself. -/
namespace ModuleLoader

open Script

/-- The machines that acts preserve, the tasks that may be asked for, and what each task owes to the
one that asks for it. -/
structure Contract where
  holds : Machine → Prop
  admits : Task → Prop
  gives : (t : Task) → t.Result → Prop

/-- The act preserves these machines, and if it gives something, then one of these. -/
def Run.Keeps {α : Type} (x : Run α) (holds : Machine → Prop) (Q : α → Prop) : Prop :=
  ∀ m r m', holds m → m.run x = some (r, m') → holds m' ∧ ∀ a, r = .ok a → Q a

def Plan.Keeps {α : Type} (K : Contract) : Plan α → (α → Prop) → Prop
  | done a, Q => Q a
  | act x next, Q => x.Keeps K.holds fun b => (next b).Keeps K Q
  | ask t next, Q => K.admits t ∧ ∀ a, K.gives t a → (next a).Keeps K Q
  | attempt t next, Q =>
    K.admits t ∧ ∀ r, (∀ a, r = .ok a → K.gives t a) → (next r).Keeps K Q

/-- Where a plan pauses that keeps a contract. -/
def Pause.Keeps {α : Type} (K : Contract) (Q : α → Prop) : Pause α → Prop
  | ended r => ∀ a, r = .ok a → Q a
  | asked t next => K.admits t ∧ ∀ r, (∀ a, r = .ok a → K.gives t a) → (next r).Keeps K Q

namespace Run

variable {α β : Type} {holds : Machine → Prop} {x : Run α} {Q : α → Prop}

theorem Plain.keeps (hx : x.Plain) (hholds : ∀ {m m'}, m.Quiet m' → holds m → holds m')
    (hQ : ∀ a, Q a) : x.Keeps holds Q :=
  fun _ _ _ hm h => ⟨hholds (hx.quiet h) hm, fun a _ => hQ a⟩

theorem Keeps.bind {f : α → Run β} {Q' : β → Prop} (hx : x.Keeps holds Q)
    (hf : ∀ a, Q a → (f a).Keeps holds Q') : (x >>= f).Keeps holds Q' := by
  intro m r m' hm h
  obtain ⟨e, hxe, rfl⟩ | ⟨a, m₁, hxa, hfa⟩ := Machine.run_bind_eq_some h
  · exact ⟨(hx m _ m' hm hxe).1, nofun⟩
  · obtain ⟨hm₁, ha⟩ := hx m _ m₁ hm hxa
    exact hf a (ha a rfl) m₁ r m' hm₁ hfa

theorem Keeps.imp {Q' : α → Prop} (hx : x.Keeps holds Q) (hQ : ∀ a, Q a → Q' a) :
    x.Keeps holds Q' :=
  fun m r m' hm h => (hx m r m' hm h).imp_right fun ha a har => hQ a (ha a har)

theorem keeps_pure {a : α} (h : Q a) : (pure a : Run α).Keeps holds Q := by
  intro m r m' hm h'
  cases h'
  exact ⟨hm, fun b hb => Except.ok.inj hb ▸ h⟩

theorem keeps_stop (e : Exception) : (stop e : Run α).Keeps holds Q := by
  intro m r m' hm h
  cases h
  exact ⟨hm, nofun⟩

theorem keeps_resume {r : Except Exception α} (h : ∀ a, r = .ok a → Q a) :
    (resume r).Keeps holds Q := by
  intro m r' m' hm h'
  cases h'
  exact ⟨hm, h⟩

theorem keeps_cutOff : (cutOff : Run α).Keeps holds Q :=
  fun _ _ _ _ h => nomatch h

theorem keeps_machine : machine.Keeps holds fun _ => True := by
  intro m r m' hm h
  cases h
  exact ⟨hm, fun _ _ => trivial⟩

theorem keeps_heap : heap.Keeps holds fun _ => True := by
  intro m r m' hm h
  cases h
  exact ⟨hm, fun _ _ => trivial⟩

end Run

namespace Plan

variable {α β : Type} {K : Contract} {Q : α → Prop} {m m' : Machine}

theorem Keeps.imp {p : Plan α} (hp : p.Keeps K Q) {Q' : α → Prop} (hQ : ∀ a, Q a → Q' a) :
    p.Keeps K Q' := by
  induction p with
  | done a => exact hQ a hp
  | act x next ih => exact Run.Keeps.imp hp fun b hb => ih b hb
  | ask t next ih => exact ⟨hp.1, fun a ha => ih a (hp.2 a ha)⟩
  | attempt t next ih => exact ⟨hp.1, fun r hr => ih r (hp.2 r hr)⟩

theorem Keeps.bind {p : Plan α} {f : α → Plan β} {Q' : β → Prop} (hp : p.Keeps K Q)
    (hf : ∀ a, Q a → (f a).Keeps K Q') : (p >>= f).Keeps K Q' := by
  induction p with
  | done a => exact hf a hp
  | act x next ih => exact Run.Keeps.imp hp fun b hb => ih b hb
  | ask t next ih => exact ⟨hp.1, fun a ha => ih a (hp.2 a ha)⟩
  | attempt t next ih => exact ⟨hp.1, fun r hr => ih r (hp.2 r hr)⟩

/-- A plain plan keeps every contract that neither takes an interest in what acts of scripts do
nor in what tasks give. -/
theorem Plain.keeps {p : Plan α} (hp : p.Plain)
    (hholds : ∀ {m m'}, m.Quiet m' → K.holds m → K.holds m')
    (hadmits : ∀ t, t.isStart = false → K.admits t) : p.Keeps K fun _ => True := by
  induction p with
  | done a => trivial
  | act x next ih => exact hp.1.keeps hholds fun b => ih b (hp.2 b)
  | ask t next ih => exact ⟨hadmits t hp.1, fun a _ => ih a (hp.2 a)⟩
  | attempt t next => exact hp.elim

theorem keeps_passing {s : Task} {next : s.Result → Plan α}
    (h : ∀ a, K.gives s a → (next a).Keeps K Q) {r : Except Exception s.Result}
    (hr : ∀ a, r = .ok a → K.gives s a) : (passing next r).Keeps K Q := by
  cases r with
  | ok a => exact h a (hr a rfl)
  | error e => exact Run.keeps_stop e

/-- Up to its next pause, a plan leaves the machine as it should be. -/
theorem Keeps.advance {p : Plan α} (hp : p.Keeps K Q) (hm : K.holds m) {q : Pause α}
    (h : p.advance m = some (q, m')) : K.holds m' ∧ q.Keeps K Q := by
  induction p generalizing m with
  | done a =>
    obtain ⟨rfl, rfl⟩ := Prod.mk.inj (Option.some.inj h)
    exact ⟨hm, fun b hb => Except.ok.inj hb ▸ hp⟩
  | act x next ih =>
    rw [Plan.advance] at h
    split at h
    · contradiction
    · rename_i e m₁ hx
      obtain ⟨rfl, rfl⟩ := Prod.mk.inj (Option.some.inj h)
      exact ⟨(hp m _ _ hm hx).1, fun a ha => by cases ha⟩
    · rename_i b m₁ hx
      obtain ⟨hm₁, hb⟩ := hp m _ _ hm hx
      exact ih b (hb b rfl) hm₁ h
  | ask t next =>
    obtain ⟨rfl, rfl⟩ := Prod.mk.inj (Option.some.inj h)
    exact ⟨hm, hp.1, fun r hr => keeps_passing hp.2 hr⟩
  | attempt t next =>
    obtain ⟨rfl, rfl⟩ := Prod.mk.inj (Option.some.inj h)
    exact ⟨hm, hp⟩

end Plan

/-! ### Loading -/

/-- The books of the loader and the word on a module that is loaded are none of the contract's
business. -/
structure Contract.SparesLoading (K : Contract) : Prop where
  modifyLoader (f : Loader → Loader) : (Run.modifyLoader f).Keeps K.holds fun _ => True
  register (id : Path) : (Evaluate.register id).Keeps K.holds fun _ => True
  announce (u : Module) : (Run.modifyHeap fun h => u.announce h).Keeps K.holds fun _ => True

namespace Plan

variable {K : Contract} (hK : K.SparesLoading)

include hK

theorem keeps_conclude (u : Module) (r : Except Exception Unit) :
    (conclude u r).Keeps K fun _ => True := by
  cases r with
  | error e => exact (hK.modifyLoader _).imp fun _ _ => Run.keeps_stop _
  | ok a =>
    exact (hK.modifyLoader _).imp fun _ _ => (hK.announce u).imp fun _ _ =>
      Run.keeps_heap.imp fun _ _ => trivial

theorem keeps_loadNew {u : Module} (hstart : ∀ s, K.admits (.start u s)) :
    (loadNew u).Keeps K fun _ => True := by
  rw [loadNew_eq]
  refine Run.keeps_machine.imp fun m _ => ?_
  dsimp only
  split
  · exact keeps_conclude hK u _
  · refine (hK.modifyLoader _).imp fun _ _ => ?_
    exact ⟨hstart _, fun r _ => keeps_conclude hK u r⟩

theorem keeps_ofLoad (hstart : ∀ u s, K.admits (.start u s)) (reference : String) (dir : Path) :
    (ofLoad reference dir).Keeps K fun _ => True := by
  rw [ofLoad_eq]
  refine (hK.modifyLoader _).imp fun _ _ => Run.keeps_machine.imp fun m _ => ?_
  dsimp only
  split
  · exact Run.keeps_stop _
  · refine (hK.register _).imp fun answer _ => ?_
    cases answer with
    | hit u => exact Run.keeps_heap.imp fun _ _ => trivial
    | registered u => exact keeps_loadNew hK (hstart u)

end Plan

/-! ### Contracts that all tasks keep -/

/-- The plans of all admitted tasks keep the contract, and give what the tasks owe. -/
def Contract.Kept (K : Contract) : Prop :=
  ∀ n t, K.admits t → (Plan.ofTask n t).Keeps K (K.gives t)

/-- The tasks that wait go on as the contract wants if the tasks that they wait for give what they
owe. -/
def Stack.Keeps (K : Contract) : {t : Task} → Stack t → Prop
  | _, bottom _ => True
  | s, frame _ t next below =>
    (∀ r : Except Exception s.Result, (∀ a, r = .ok a → K.gives s a) →
      (next r).Keeps K (K.gives t)) ∧ below.Keeps K

namespace Moment

def Keeps (K : Contract) : Moment → Prop
  | resting m => K.holds m
  | entering _ t stack m => K.holds m ∧ K.admits t ∧ stack.Keeps K
  | leaving t r stack m => K.holds m ∧ (∀ a, r = .ok a → K.gives t a) ∧ stack.Keeps K

variable {K : Contract}

theorem keeps_pause {n : Nat} {t : Task} {stack : Stack t} {m : Machine} {q : Pause t.Result}
    (hm : K.holds m) (hq : q.Keeps K (K.gives t)) (hs : stack.Keeps K) :
    (q.moment n t stack m).Keeps K := by
  cases q with
  | ended r => exact ⟨hm, hq, hs⟩
  | asked s next => exact ⟨hm, hq.1, hq.2, hs⟩

theorem Keeps.step (hK : K.Kept) {a b : Moment} (ha : a.Keeps K) (h : a.step = some b) :
    b.Keeps K := by
  match a with
  | resting _ | entering 0 _ _ _ | leaving _ _ (.bottom _) _ => contradiction
  | entering (n + 1) t stack m =>
    obtain ⟨⟨q, m'⟩, hq, rfl⟩ := Option.map_eq_some_iff.mp h
    obtain ⟨hm, ht, hs⟩ := ha
    obtain ⟨hm', hq'⟩ := (hK n t ht).advance hm hq
    exact keeps_pause hm' hq' hs
  | leaving s r (.frame n t next below) m =>
    obtain ⟨⟨q, m'⟩, hq, rfl⟩ := Option.map_eq_some_iff.mp h
    obtain ⟨hm, hr, hnext, hs⟩ := ha
    obtain ⟨hm', hq'⟩ := (hnext r hr).advance hm hq
    exact keeps_pause hm' hq' hs

theorem Steps.keeps (hK : K.Kept) {a b : Moment} (h : Steps a b) (ha : a.Keeps K) : b.Keeps K := by
  induction h with
  | refl => exact ha
  | tail _ hstep ih => exact ih.step hK hstep

/-- A task that is admitted gives what it owes. -/
theorem gives_of_perform (hK : K.Kept) {n : Nat} {t : Task} {a : t.Result} {m m' : Machine}
    (ht : K.admits t) (hm : K.holds m)
    (h : m.run (Evaluate.perform n t) = some (.ok a, m')) : K.gives t a := by
  have hbegin : Keeps K (.entering n t (.bottom t) m) := ⟨hm, ht, trivial⟩
  obtain ⟨-, hgives, -⟩ := (steps_of_perform h (.bottom t)).keeps hK hbegin
  exact hgives a rfl

end Moment

end ModuleLoader
