import ModuleLoader.Proofs.Views

/-! Plans that respect what is hidden. All tasks have such plans: what they ask for is in sight, and
what they give is in sight again, whatever came into sight while they waited. -/
namespace ModuleLoader

open Script

/-- The acts of the plan respect what is hidden, and it asks for what is in sight. When it goes on,
more may be in sight than before. -/
def Plan.Respects {α : Type} (l : Loader) : Sight → Plan α → (Sight → α → Prop) → Prop
  | K, done a, Q => Q K a
  | K, act x next, Q => x.Respects l K fun K b => (next b).Respects l K Q
  | K, ask t next, Q =>
    t.InSight l K ∧ ∀ K', K ≤ K' → ∀ a, t.Shows K' a → (next a).Respects l K' Q
  | K, attempt t next, Q => t.InSight l K ∧ ∀ K', K ≤ K' → ∀ r,
    Sight.Ends l K' (fun K a => t.Shows K a) r → (next r).Respects l K' Q

/-- Where a plan pauses that respects what is hidden. -/
def Pause.Respects {α : Type} (l : Loader) (K : Sight) (Q : Sight → α → Prop) : Pause α → Prop
  | ended r => Sight.Ends l K Q r
  | asked t next => t.InSight l K ∧ ∀ K', K ≤ K' → ∀ r,
    Sight.Ends l K' (fun K a => t.Shows K a) r → (next r).Respects l K' Q

variable {l : Loader} {K : Sight}

theorem Sight.Ends.mono {α : Type} {Q : Sight → α → Prop} {r : Except Exception α}
    (h : Sight.Ends l K Q r) {K' : Sight} (hK : K ≤ K') (hQ : ∀ a, Q K a → Q K' a) :
    Sight.Ends l K' Q r := by
  cases r with
  | ok a => exact hQ a h
  | error e => exact Exception.InSight.mono h hK

namespace Plan

variable {α β : Type} {Q : Sight → α → Prop}

theorem Respects.imp {p : Plan α} (hp : p.Respects l K Q) {Q' : Sight → α → Prop}
    (hQ : ∀ K', K ≤ K' → ∀ a, Q K' a → Q' K' a) : p.Respects l K Q' := by
  induction p generalizing K with
  | done a => exact hQ K (le_refl K) a hp
  | act x next ih =>
    exact Run.Respects.imp hp fun K₁ hK₁ b hb => ih b hb fun K₂ hK₂ => hQ K₂ (hK₁.trans hK₂)
  | ask t next ih =>
    exact ⟨hp.1, fun K₁ hK₁ a ha => ih a (hp.2 K₁ hK₁ a ha) fun K₂ hK₂ => hQ K₂ (hK₁.trans hK₂)⟩
  | attempt t next ih =>
    exact ⟨hp.1, fun K₁ hK₁ r hr => ih r (hp.2 K₁ hK₁ r hr) fun K₂ hK₂ => hQ K₂ (hK₁.trans hK₂)⟩

theorem Respects.bind {p : Plan α} {f : α → Plan β} {Q' : Sight → β → Prop}
    (hp : p.Respects l K Q) (hf : ∀ K', K ≤ K' → ∀ a, Q K' a → (f a).Respects l K' Q') :
    (p >>= f).Respects l K Q' := by
  induction p generalizing K with
  | done a => exact hf K (le_refl K) a hp
  | act x next ih =>
    exact Run.Respects.imp hp fun K₁ hK₁ b hb => ih b hb fun K₂ hK₂ => hf K₂ (hK₁.trans hK₂)
  | ask t next ih =>
    exact ⟨hp.1, fun K₁ hK₁ a ha => ih a (hp.2 K₁ hK₁ a ha) fun K₂ hK₂ => hf K₂ (hK₁.trans hK₂)⟩
  | attempt t next ih =>
    exact ⟨hp.1, fun K₁ hK₁ r hr => ih r (hp.2 K₁ hK₁ r hr) fun K₂ hK₂ => hf K₂ (hK₁.trans hK₂)⟩

theorem respects_act {x : Run α} (h : x.Respects l K Q) : (act x done).Respects l K Q :=
  h

theorem respects_act_bind {x : Run α} {f : α → Plan β} {Q' : Sight → β → Prop}
    (hx : x.Respects l K Q) (hf : ∀ K', K ≤ K' → ∀ a, Q K' a → (f a).Respects l K' Q') :
    (act x done >>= f).Respects l K Q' :=
  (respects_act hx).bind hf

theorem respects_passing {s : Task} {next : s.Result → Plan α}
    (h : ∀ a, s.Shows K a → (next a).Respects l K Q) {r : Except Exception s.Result}
    (hr : Sight.Ends l K (fun K a => s.Shows K a) r) : (passing next r).Respects l K Q := by
  cases r with
  | ok a => exact h a hr
  | error e => exact Run.respects_stop hr

/-- Up to its next pause, a plan keeps what is hidden as it is. -/
theorem Respects.advance {p : Plan α} {H : ObjectId → Prop} {m m' : Machine}
    (hp : p.Respects l (m.heap.Sees H) Q) (hh : m.heap.Hides H) (hl : l.SameOptions m.loader)
    {q : Pause α} (h : p.advance m = some (q, m')) :
    m.heap.Shields H m'.heap ∧ l.SameOptions m'.loader ∧ q.Respects l (m'.heap.Sees H) Q := by
  induction p generalizing m with
  | done a =>
    obtain ⟨rfl, rfl⟩ := Prod.mk.inj (Option.some.inj h)
    exact ⟨.refl hh, hl, hp⟩
  | act x next ih =>
    rw [Plan.advance] at h
    split at h
    · contradiction
    · rename_i e m₁ hx
      obtain ⟨rfl, rfl⟩ := Prod.mk.inj (Option.some.inj h)
      exact hp H m _ _ hh rfl hl hx
    · rename_i b m₁ hx
      obtain ⟨hshields, hl₁, hb⟩ := hp H m _ _ hh rfl hl hx
      obtain ⟨hshields', hl', hq⟩ := ih b hb hshields.hides hl₁ h
      exact ⟨hshields.trans hshields', hl', hq⟩
  | ask t next =>
    obtain ⟨rfl, rfl⟩ := Prod.mk.inj (Option.some.inj h)
    exact ⟨.refl hh, hl, hp.1, fun K' hK r hr => respects_passing (hp.2 K' hK) hr⟩
  | attempt t next =>
    obtain ⟨rfl, rfl⟩ := Prod.mk.inj (Option.some.inj h)
    exact ⟨.refl hh, hl, hp⟩

/-! ### Plans of one task -/

open Run Evaluate

theorem respects_value (e : Expr) (scope : Scope) :
    (value e scope).Respects l K fun K v => v.Among K :=
  ⟨trivial, fun _ _ _ hv => hv⟩

theorem respects_place (e : Expr) (scope : Scope) :
    (place e scope).Respects l K fun K p => p.Among K :=
  ⟨trivial, fun _ _ _ hp => hp⟩

theorem respects_statement (s : Stmt) (scope : Scope) :
    (statement s scope).Respects l K fun K c => c.value.Among K :=
  ⟨trivial, fun _ _ _ hc => hc⟩

theorem respects_attemptBody (statements : List Stmt) (scope : Scope) :
    (attemptBody statements scope).Respects l K
      fun K r => Sight.Ends l K (fun K c => c.value.Among K) r :=
  ⟨trivial, fun _ _ _ hr => hr⟩

/-! ### Expressions -/

theorem respects_values (scope : Scope) (es : List Expr) :
    (values scope es).Respects l K fun K vs => ∀ v ∈ vs, v.Among K := by
  induction es generalizing K with
  | nil => exact List.forall_mem_nil _
  | cons e rest ih =>
    refine (respects_value e scope).bind fun K₁ _ v hv => ih.bind fun K₂ hK₂ vs hvs => ?_
    exact List.forall_mem_cons.mpr ⟨hv.mono hK₂, hvs⟩

theorem respects_properties (scope : Scope) (fields : List (String × Expr)) :
    (properties scope fields).Respects l K fun K pairs => Dict.Each (Value.Among K) pairs := by
  induction fields generalizing K with
  | nil => exact Dict.each_nil
  | cons field rest ih =>
    refine (respects_value field.2 scope).bind fun K₁ _ v hv => ih.bind fun K₂ hK₂ pairs hps => ?_
    exact Dict.Each.cons (hv.mono hK₂) hps

theorem respects_ofExpr (scope : Scope) (e : Expr) :
    (ofExpr scope e).Respects l K fun K v => v.Among K := by
  cases e with
  | number | string | bool | null => trivial
  | identifier name => exact respects_getVariable scope name
  | this =>
    refine respects_act_bind respects_heap fun K _ h hh => ?_
    cases hv : h.lookup? scope "this" with
    | none => trivial
    | some v => exact hh.lookup? hv
  | array items =>
    refine (respects_values scope items).bind fun K _ vs hvs => ?_
    exact respects_newArray fun v hv => hvs v (List.mem_toArray.mp hv)
  | object fields =>
    exact (respects_properties scope fields).bind fun K _ ps hps => respects_newObject hps.ofPairs
  | function literal => exact respects_functionValue literal scope
  | unary op operand =>
    refine respects_act_bind respects_heap fun K _ h _ => ?_
    split
    · trivial
    · exact (respects_value operand scope).bind fun _ _ v _ => among_apply op v
  | binary op left right =>
    refine (respects_value left scope).bind fun _ _ v _ => ?_
    refine (respects_value right scope).bind fun _ _ w _ => ?_
    exact respects_act_bind respects_heap fun _ _ h _ => h.among_binary op v w
  | logical op left right =>
    refine (respects_value left scope).bind fun _ _ v hv => ?_
    split
    · exact hv
    · exact respects_value right scope
  | conditional test consequent alternate =>
    refine (respects_value test scope).bind fun _ _ v _ => ?_
    split
    · exact respects_value consequent scope
    · exact respects_value alternate scope
  | assign op target e =>
    cases op with
    | none =>
      refine (respects_place target scope).bind fun _ _ p hp => ?_
      refine (respects_value e scope).bind fun _ hK v hv => ?_
      exact respects_act_bind (respects_putPlace scope hv (hp.mono hK)) fun _ hK _ _ => hv.mono hK
    | some op =>
      refine (respects_place target scope).bind fun _ _ p hp => ?_
      refine respects_act_bind (respects_getPlace scope p) fun _ hK₁ v _ => ?_
      refine (respects_value e scope).bind fun _ hK₂ w _ => ?_
      refine respects_act_bind respects_heap fun _ hK₃ h _ => ?_
      have hvalue (K : Sight) : (h.binary op v w).Among K := h.among_binary op v w
      have hp' := ((hp.mono hK₁).mono hK₂).mono hK₃
      exact respects_act_bind (respects_putPlace scope (hvalue _) hp') fun _ _ _ _ => hvalue _
  | update step side target =>
    refine (respects_place target scope).bind fun _ _ p hp => ?_
    refine respects_act_bind (respects_getPlace scope p) fun _ hK v _ => ?_
    exact respects_act_bind (respects_putPlace scope trivial (hp.mono hK)) fun _ _ _ _ => trivial
  | call callee args =>
    have hcallee : (method callee scope).Respects l K fun K f => f.1.Among K ∧ f.2.Among K :=
      ⟨trivial, fun _ _ _ hf => hf⟩
    refine hcallee.bind ?_
    rintro K₁ - ⟨f, this⟩ ⟨hf, hthis⟩
    refine (respects_values scope args).bind fun K₂ hK vs hvs => ?_
    split
    · exact ⟨⟨hf.mono hK, hthis.mono hK, hvs⟩, fun _ _ _ hv => hv⟩
    · exact respects_raise _ _
  | member object =>
    exact (respects_value object scope).bind fun _ _ _ _ => respects_getProperty _ _
  | index object index =>
    refine (respects_value object scope).bind fun _ _ _ _ => ?_
    refine (respects_value index scope).bind fun _ _ _ _ => ?_
    exact respects_act_bind respects_heap fun _ _ _ _ => respects_getProperty _ _

theorem respects_ofTarget (scope : Scope) (e : Expr) :
    (ofTarget scope e).Respects l K fun K p => p.Among K := by
  unfold ofTarget
  split
  · trivial
  · exact (respects_value _ scope).bind fun _ _ v hv => hv
  · refine (respects_value _ scope).bind fun _ _ v hv => ?_
    refine (respects_value _ scope).bind fun _ hK₁ w _ => ?_
    exact respects_act_bind respects_heap fun _ hK₂ _ _ => (hv.mono hK₁).mono hK₂
  · exact respects_raise _ _

theorem respects_ofCallee (scope : Scope) (e : Expr) :
    (ofCallee scope e).Respects l K fun K f => f.1.Among K ∧ f.2.Among K := by
  unfold ofCallee
  split
  · refine (respects_value _ scope).bind fun _ _ v hv => ?_
    exact respects_act_bind (respects_getProperty v _) fun _ hK f hf => ⟨hf, hv.mono hK⟩
  · refine (respects_value _ scope).bind fun _ _ v hv => ?_
    refine (respects_value _ scope).bind fun _ hK₁ w _ => ?_
    refine respects_act_bind respects_heap fun _ hK₂ h _ => ?_
    refine respects_act_bind (respects_getProperty v _) fun _ hK₃ f hf => ⟨hf, ?_⟩
    exact ((hv.mono hK₁).mono hK₂).mono hK₃
  · exact (respects_value _ scope).bind fun _ _ f hf => ⟨hf, trivial⟩

/-! ### Statements -/

theorem respects_sequence (scope : Scope) (statements : List Stmt) :
    (sequence scope statements).Respects l K fun K c => c.value.Among K := by
  induction statements generalizing K with
  | nil => trivial
  | cons s rest ih =>
    refine (respects_statement s scope).bind fun _ _ c hc => ?_
    cases c with
    | normal => exact ih
    | «return» | «break» | «continue» => exact hc

theorem respects_ofBody (statements : List Stmt) (scope : Scope) :
    (ofBody statements scope).Respects l K fun K c => c.value.Among K :=
  respects_act_bind (respects_hoist scope statements) fun _ _ _ _ =>
    respects_sequence scope statements

theorem respects_inNewScope (statements : List Stmt) (outer : Scope) :
    (inNewScope statements outer).Respects l K fun K c => c.value.Among K :=
  respects_act_bind (respects_newScope outer Dict.each_nil) fun _ _ _ _ =>
    ⟨trivial, fun _ _ _ hc => hc⟩

theorem respects_loop {condition : Plan Bool} {turn : Plan Completion} {update : Plan Unit}
    (hc : ∀ K, condition.Respects l K fun _ _ => True)
    (ht : ∀ K, turn.Respects l K fun K c => c.value.Among K)
    (hu : ∀ K, update.Respects l K fun _ _ => True) (turns : Nat) :
    (loop condition turn update turns).Respects l K fun K c => c.value.Among K := by
  induction turns generalizing K with
  | zero => exact respects_cutOff
  | succ turns ih =>
    refine (hc K).bind fun K₁ _ b _ => ?_
    split
    · refine (ht K₁).bind fun K₂ _ c hvalue => ?_
      split
      · trivial
      · exact hvalue
      · exact (hu K₂).bind fun _ _ _ _ => ih
    · trivial

theorem respects_declarations (kind : DeclarationWord) (scope : Scope)
    (ds : List (String × Option Expr)) :
    (declarations kind scope ds).Respects l K fun _ _ => True := by
  induction ds generalizing K with
  | nil => trivial
  | cons d rest ih =>
    obtain ⟨name, init⟩ := d
    cases init with
    | none =>
      have hundefined : Value.undefined.Among K := trivial
      exact respects_act_bind (respects_declare scope name hundefined _) fun _ _ _ _ => ih
    | some e =>
      refine (respects_value e scope).bind fun _ _ v hv => ?_
      exact respects_act_bind (respects_declare scope name hv _) fun _ _ _ _ => ih

theorem respects_handled {r : Except Exception Completion}
    (hr : Sight.Ends l K (fun K c => c.value.Among K) r) (param : Option String)
    (handler : Option (List Stmt)) (scope : Scope) :
    (handled r param handler scope).Respects l K
      fun K r => Sight.Ends l K (fun K c => c.value.Among K) r := by
  unfold handled
  split
  · rename_i e handler
    have hframe : (handlerFrame param e).Respects l K fun K f => Dict.Each (Binding.Among K) f := by
      cases param with
      | none => exact respects_pure Dict.each_nil
      | some name =>
        refine (respects_caught hr).bind fun K _ v hv => respects_pure ?_
        exact Dict.Each.cons hv Dict.each_nil
    refine respects_act_bind hframe fun K₁ _ frame hf => ?_
    refine respects_act_bind (respects_newScope scope hf) fun K₂ _ inner _ => ?_
    exact respects_attemptBody _ inner
  · exact hr

theorem respects_resume_after {r : Except Exception Completion} {K' : Sight} (hK : K ≤ K')
    (hr : Sight.Ends l K (fun K c => c.value.Among K) r) :
    (act (Run.resume r) done).Respects l K' fun K c => c.value.Among K :=
  respects_act (respects_resume (hr.mono hK fun _ hc => Value.Among.mono hc hK))

theorem respects_finalized {r : Except Exception Completion}
    (hr : Sight.Ends l K (fun K c => c.value.Among K) r) (finalizer : Option (List Stmt))
    (scope : Scope) : (finalized r finalizer scope).Respects l K fun K c => c.value.Among K := by
  cases finalizer with
  | none => exact respects_resume_after (le_refl K) hr
  | some finalizer =>
    refine (respects_inNewScope finalizer scope).bind fun K₁ hK c hc => ?_
    cases c with
    | normal => exact respects_resume_after hK hr
    | «return» | «break» | «continue» => exact hc

theorem respects_guarded (block : List Stmt) (param : Option String)
    (handler finalizer : Option (List Stmt)) (scope : Scope) :
    (guarded block param handler finalizer scope).Respects l K fun K c => c.value.Among K := by
  refine respects_act_bind (respects_newScope scope Dict.each_nil) fun _ _ inner _ => ?_
  refine (respects_attemptBody block inner).bind fun _ _ r hr => ?_
  exact (respects_handled hr param handler scope).bind fun _ _ r hr =>
    respects_finalized hr finalizer scope

theorem respects_ofStmt (turns : Nat) (scope : Scope) (s : Stmt) :
    (ofStmt turns scope s).Respects l K fun K c => c.value.Among K := by
  have hcondition (e : Expr) (scope : Scope) (K : Sight) :
      (do return (← value e scope).truthy : Plan Bool).Respects l K fun _ _ => True :=
    (respects_value e scope).bind fun _ _ _ _ => trivial
  cases s with
  | declaration kind ds => exact (respects_declarations kind scope ds).bind fun _ _ _ _ => trivial
  | function | empty | «break» | «continue» => trivial
  | expression e => exact (respects_value e scope).bind fun _ _ _ _ => trivial
  | «if» condition consequent alternate =>
    refine (respects_value condition scope).bind fun _ _ v _ => ?_
    split
    · exact respects_statement consequent scope
    · cases alternate with
      | none => trivial
      | some s => exact respects_statement s scope
  | «while» condition turn =>
    have hupdate (K : Sight) : (pure () : Plan Unit).Respects l K fun _ _ => True := trivial
    exact respects_loop (hcondition condition scope) (fun _ => respects_statement turn scope)
      hupdate turns
  | «for» init condition update turn =>
    refine respects_act_bind (respects_newScope scope Dict.each_nil) fun K₁ _ inner _ => ?_
    rcases init with _ | s
    case' some => refine (respects_statement s inner).bind fun K₂ _ _ _ => ?_
    all_goals
      refine respects_loop (fun K => ?_) (fun K => respects_statement turn inner) (fun K => ?_)
        turns
      · cases condition with
        | none => trivial
        | some e => exact hcondition e inner K
      · cases update with
        | none => trivial
        | some e => exact (respects_value e inner).bind fun _ _ _ _ => trivial
  | block statements => exact respects_inNewScope statements scope
  | «return» e =>
    cases e with
    | none => trivial
    | some e => exact (respects_value e scope).bind fun _ _ v hv => hv
  | throw e =>
    exact (respects_value e scope).bind fun _ _ v hv => respects_act (respects_stop hv)
  | «try» block param handler finalizer =>
    exact respects_guarded block param handler finalizer scope

/-! ### Calls and modules -/

theorem respects_afterBody {r : Except Exception Completion}
    (hr : Sight.Ends l K (fun K c => c.value.Among K) r) :
    (afterBody r).Respects l K fun K v => v.Among K := by
  have hleave : Run.leave.Respects l K fun _ _ => True :=
    respects_modify (fun _ => rfl) fun _ => rfl
  exact respects_act_bind hleave fun _ hK _ _ =>
    (respects_resume_after hK hr).bind fun _ _ c hc => hc

theorem respects_callFunction (f : FunctionId) {this : Value} (hthis : this.Among K)
    {args : List Value} (hargs : ∀ v ∈ args, v.Among K) :
    (callFunction f this args).Respects l K fun K v => v.Among K := by
  have henter (K : Sight) : Run.enter.Respects l K fun _ _ => True :=
    respects_modify (fun _ => rfl) fun _ => rfl
  rw [callFunction_eq]
  refine respects_machine.imp fun K₁ hK₁ m _ => ?_
  dsimp only
  split
  · exact respects_act (respects_raise _ _)
  · refine (henter K₁).imp fun K₂ hK₂ _ _ => respects_heap.imp fun K₃ hK₃ h _ => ?_
    have hK := (hK₁.trans hK₂).trans hK₃
    have hframe := each_callFrame (hthis.mono hK) (h.closure f).literal.params
      fun v hv => (hargs v hv).mono hK
    refine (respects_newScope _ hframe).imp fun _ _ inner _ => ⟨trivial, fun _ _ r hr => ?_⟩
    exact respects_afterBody hr

theorem respects_ofCall {f this : Value} {args : List Value}
    (h : (Task.call f this args).InSight l K) :
    (ofCall f this args).Respects l K fun K v => v.Among K := by
  obtain ⟨-, hthis, hargs⟩ := h
  unfold ofCall
  split
  · exact respects_callFunction _ hthis hargs
  · unfold require
    split
    · refine respects_act_bind respects_machine fun _ _ m _ => ?_
      split
      · exact respects_act (respects_raise _ _)
      · exact ⟨trivial, fun _ _ _ hv => hv⟩
    · exact respects_act (respects_raise _ _)
  · exact respects_act (Builtin.respects_call _ _ hargs)
  · exact respects_act (respects_raise _ _)

theorem respects_ofStart {u : Module} {s : Strategy} (h : (Task.start u s).InSight l K) :
    (ofStart u s).Respects l K fun _ _ => True := by
  obtain ⟨hu, hs⟩ := h
  cases s with
  | json => exact respects_act (respects_loadJson hu hs)
  | script =>
    rw [ofStart, startScript_eq]
    refine (respects_sourceOf hs).imp fun K₁ hK₁ source hsource => ?_
    obtain ⟨text, hread, rfl⟩ := hsource
    refine (respects_compile _).imp fun K₂ hK₂ r hr => ?_
    obtain ⟨hf, he⟩ := hr
    cases r with
    | error e =>
      refine respects_act (respects_stop fun id hid => ?_)
      obtain rfl := Option.some.inj hid
      simp only [Loader.obstacle?_of_ok hs hread, Strategy.objection?, he e rfl]
    | ok f =>
      refine respects_heap.imp fun K₃ hK₃ h hh => ?_
      have hexports := among_exposed hh u
      have hobject : (Value.object u.object).Among K₃ := hK₃ _ (hK₂ _ (hK₁ _ hu))
      refine ⟨⟨(hf f rfl).mono hK₃, hexports, ?_⟩, fun _ _ _ _ => trivial⟩
      simp only [List.forall_mem_cons]
      exact ⟨hexports, trivial, hobject, trivial, trivial, List.forall_mem_nil _⟩

theorem respects_conclude {u : Module} (hu : K u.object) {r : Except Exception Unit}
    (hr : Sight.Ends l K (fun _ _ => True) r) :
    (conclude u r).Respects l K fun K v => v.Among K := by
  have hsettle (state : ModuleState) (K : Sight) :
      (Run.modifyLoader fun l => l.settle u.id state).Respects l K fun _ _ => True :=
    respects_modifyLoader fun l => l.sameOptions_settle u.id state
  cases r with
  | ok a =>
    refine (hsettle .loaded K).imp fun _ hK _ _ => ?_
    refine (respects_announce (hK _ hu)).imp fun _ _ _ _ => ?_
    exact respects_heap.imp fun _ _ h hh => among_exposed hh u
  | error e =>
    refine (hsettle .failed K).imp fun _ hK _ _ => respects_act (respects_stop ?_)
    replace hr := Exception.InSight.mono hr hK
    cases e with
    | thrown v => exact hr
    | uncaught path v => exact hr
    | load fault => exact hr

theorem respects_loadNew {u : Module} (hu : K u.object) :
    (loadNew u).Respects l K fun K v => v.Among K := by
  rw [loadNew_eq]
  refine respects_machine.imp fun K₁ hK₁ m hl => ?_
  dsimp only
  rw [← hl.strategyFor?_eq]
  cases hs : l.strategyFor? u.id with
  | none =>
    refine respects_conclude (hK₁ _ hu) fun id hid => ?_
    obtain rfl := Option.some.inj hid
    exact Loader.obstacle?_of_unknown hs
  | some s =>
    refine (respects_modifyLoader fun l => l.sameOptions_note _).imp fun K₂ hK₂ _ _ => ?_
    have hu₂ := hK₂ _ (hK₁ _ hu)
    exact ⟨⟨hu₂, hs⟩, fun K₃ hK₃ r hr => respects_conclude (hK₃ _ hu₂) hr⟩

theorem respects_ofLoad (reference : String) (dir : Path) :
    (ofLoad reference dir).Respects l K fun K v => v.Among K := by
  rw [ofLoad_eq]
  refine (respects_modifyLoader fun l => l.sameOptions_note _).imp fun _ _ _ _ =>
    respects_machine.imp fun _ _ m _ => ?_
  dsimp only
  split
  · rename_i fault hfault
    obtain ⟨base, tried, rfl⟩ := resolve_error hfault
    exact respects_act (respects_stop nofun)
  · refine (respects_register _).imp fun K _ answer hanswer => ?_
    cases answer with
    | hit u => exact respects_heap.imp fun _ _ h hh => among_exposed hh u
    | registered u => exact respects_loadNew (hanswer u rfl).2

theorem respects_ofTask (n : Nat) {t : Task} (h : t.InSight l K) :
    (ofTask n t).Respects l K fun K a => t.Shows K a := by
  cases t with
  | value e scope => exact respects_ofExpr scope e
  | place e scope => exact respects_ofTarget scope e
  | method e scope => exact respects_ofCallee scope e
  | statement s scope => exact respects_ofStmt n scope s
  | body statements scope => exact respects_ofBody statements scope
  | call f this args => exact respects_ofCall h
  | load reference dir => exact respects_ofLoad reference dir
  | start u s => exact respects_ofStart h

end Plan

/-! ### Moments -/

/-- The tasks that wait respect what is hidden when they go on, whatever came into sight before. -/
def Stack.Respects (l : Loader) (K : Sight) : {t : Task} → Stack t → Prop
  | _, bottom _ => True
  | s, frame _ t next below =>
    (∀ K', K ≤ K' → ∀ r, Sight.Ends l K' (fun K a => s.Shows K a) r →
      (next r).Respects l K' fun K a => t.Shows K a) ∧ below.Respects l K

theorem Stack.Respects.mono {t : Task} {stack : Stack t} (h : stack.Respects l K) {K' : Sight}
    (hK : K ≤ K') : stack.Respects l K' := by
  induction stack with
  | bottom t => trivial
  | frame n t next below ih => exact ⟨fun K'' hK'' => h.1 K'' (hK.trans hK''), ih h.2⟩

namespace Moment

/-- These objects are hidden, and all that is going on is in sight. -/
def Respects (l : Loader) (H : ObjectId → Prop) : Moment → Prop
  | resting m => m.heap.Hides H ∧ l.SameOptions m.loader
  | entering _ t stack m => m.heap.Hides H ∧ l.SameOptions m.loader ∧
    t.InSight l (m.heap.Sees H) ∧ stack.Respects l (m.heap.Sees H)
  | leaving t r stack m => m.heap.Hides H ∧ l.SameOptions m.loader ∧
    Sight.Ends l (m.heap.Sees H) (fun K a => t.Shows K a) r ∧ stack.Respects l (m.heap.Sees H)

variable {H : ObjectId → Prop}

theorem respects_pause {n : Nat} {t : Task} {stack : Stack t} {m : Machine} {q : Pause t.Result}
    (hh : m.heap.Hides H) (hl : l.SameOptions m.loader)
    (hq : q.Respects l (m.heap.Sees H) fun K a => t.Shows K a)
    (hs : stack.Respects l (m.heap.Sees H)) : (q.moment n t stack m).Respects l H := by
  cases q with
  | ended r => exact ⟨hh, hl, hq, hs⟩
  | asked s next => exact ⟨hh, hl, hq.1, hq.2, hs⟩

/-- Every step leaves the hidden objects as they are, and hidden. -/
theorem Respects.step {a b : Moment} (ha : a.Respects l H) (h : a.step = some b) :
    b.Respects l H ∧ a.machine.heap.Shields H b.machine.heap := by
  match a with
  | resting _ | entering 0 _ _ _ | leaving _ _ (.bottom _) _ => contradiction
  | entering (n + 1) t stack m =>
    obtain ⟨⟨q, m'⟩, hq, rfl⟩ := Option.map_eq_some_iff.mp h
    obtain ⟨hh, hl, ht, hs⟩ := ha
    obtain ⟨hshields, hl', hq'⟩ := (Plan.respects_ofTask n ht).advance hh hl hq
    refine ⟨respects_pause hshields.hides hl' hq' (hs.mono hshields.sees), ?_⟩
    cases q <;> exact hshields
  | leaving s r (.frame n t next below) m =>
    obtain ⟨⟨q, m'⟩, hq, rfl⟩ := Option.map_eq_some_iff.mp h
    obtain ⟨hh, hl, hr, hnext, hs⟩ := ha
    obtain ⟨hshields, hl', hq'⟩ := (hnext _ (le_refl _) r hr).advance hh hl hq
    refine ⟨respects_pause hshields.hides hl' hq' (hs.mono hshields.sees), ?_⟩
    cases q <;> exact hshields

theorem Steps.respects {a b : Moment} (h : Steps a b) (ha : a.Respects l H) :
    b.Respects l H ∧ a.machine.heap.Shields H b.machine.heap := by
  induction h with
  | refl =>
    refine ⟨ha, .refl ?_⟩
    cases a <;> exact ha.1
  | tail _ hstep ih =>
    obtain ⟨hb, hshields⟩ := ih
    obtain ⟨hc, hshields'⟩ := hb.step hstep
    exact ⟨hc, hshields.trans hshields'⟩

end Moment

end ModuleLoader
