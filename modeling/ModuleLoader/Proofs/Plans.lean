import ModuleLoader.Proofs.Acts
import ModuleLoader.Proofs.Moments

/-! The plans of scripts. All but three kinds of task have plain plans: these attempt nothing, so
that an exception of a task that they ask for ends them as well. The other kinds are the call of a
script function, the guarded statement, and the loading of a module. -/
namespace ModuleLoader

open Script

namespace Task

/-- The task is what a strategy does for a module. Only the loading of that module asks for it. -/
def isStart : Task → Bool
  | start _ _ => true
  | _ => false

def isLoad : Task → Bool
  | load _ _ => true
  | _ => false

end Task

namespace Plan

variable {α β : Type}

def Plain : Plan α → Prop
  | done _ => True
  | act x next => x.Plain ∧ ∀ b, (next b).Plain
  | ask t next => t.isStart = false ∧ ∀ a, (next a).Plain
  | attempt _ _ => False

theorem Plain.bind {p : Plan α} {f : α → Plan β} (hp : p.Plain) (hf : ∀ a, (f a).Plain) :
    (p >>= f).Plain := by
  induction p with
  | done a => exact hf a
  | act x next ih => exact ⟨hp.1, fun b => ih b (hp.2 b)⟩
  | ask t next ih => exact ⟨hp.1, fun a => ih a (hp.2 a)⟩
  | attempt t next => exact hp.elim

theorem plain_pure (a : α) : (pure a : Plan α).Plain :=
  trivial

theorem plain_act {x : Run α} (hx : x.Plain) : (act x done).Plain :=
  ⟨hx, fun _ => trivial⟩

theorem plain_ask {t : Task} (ht : t.isStart = false) : (ask t done).Plain :=
  ⟨ht, fun _ => trivial⟩

theorem plain_raise (name message : String) : (act (Run.raise name message : Run α) done).Plain :=
  plain_act (Run.plain_raise name message)

theorem plain_act_bind {x : Run α} {f : α → Plan β} (hx : x.Plain) (hf : ∀ a, (f a).Plain) :
    (act x done >>= f).Plain :=
  (plain_act hx).bind hf

theorem plain_ask_bind {t : Task} {f : t.Result → Plan β} (ht : t.isStart = false)
    (hf : ∀ a, (f a).Plain) : (ask t done >>= f).Plain :=
  (plain_ask ht).bind hf

/-! ### Statements -/

theorem plain_sequence (scope : Scope) (statements : List Stmt) :
    (sequence scope statements).Plain := by
  induction statements with
  | nil => exact plain_pure _
  | cons s rest ih =>
    refine plain_ask_bind rfl fun c => ?_
    cases c with
    | normal => exact ih
    | «return» v => exact plain_pure _
    | «break» => exact plain_pure _
    | «continue» => exact plain_pure _

theorem plain_ofBody (statements : List Stmt) (scope : Scope) : (ofBody statements scope).Plain :=
  plain_act_bind (Evaluate.plain_hoist scope statements) fun _ => plain_sequence scope statements

theorem plain_inNewScope (statements : List Stmt) (outer : Scope) :
    (inNewScope statements outer).Plain :=
  plain_act_bind (Run.plain_newScope outer []) fun _ => plain_ask rfl

theorem plain_loop {condition : Plan Bool} {turn : Plan Completion} {update : Plan Unit}
    (hc : condition.Plain) (ht : turn.Plain) (hu : update.Plain) (turns : Nat) :
    (loop condition turn update turns).Plain := by
  induction turns with
  | zero => exact plain_act Run.plain_cutOff
  | succ turns ih =>
    refine hc.bind fun b => ?_
    split
    · refine ht.bind fun c => ?_
      split
      · exact plain_pure _
      · exact plain_pure _
      · exact hu.bind fun _ => ih
    · exact plain_pure _

theorem plain_declarations (kind : DeclarationWord) (scope : Scope)
    (ds : List (String × Option Expr)) : (declarations kind scope ds).Plain := by
  induction ds with
  | nil => exact plain_pure _
  | cons d rest ih =>
    obtain ⟨name, init⟩ := d
    cases init with
    | none => exact plain_act_bind (Run.plain_declare _ _ _ _) fun _ => ih
    | some e =>
      exact plain_ask_bind rfl fun v => plain_act_bind (Run.plain_declare _ _ _ _) fun _ => ih

theorem plain_ofStmt (turns : Nat) (scope : Scope) (s : Stmt)
    (hs : ∀ block param handler finalizer span, s ≠ .try block param handler finalizer span) :
    (ofStmt turns scope s).Plain := by
  cases s with
  | declaration kind ds span =>
    exact (plain_declarations kind scope ds).bind fun _ => plain_pure _
  | function literal => exact plain_pure _
  | empty span => exact plain_pure _
  | expression e => exact plain_ask_bind rfl fun _ => plain_pure _
  | «if» condition consequent alternate span =>
    refine plain_ask_bind rfl fun v => ?_
    split
    · exact plain_ask rfl
    · cases alternate with
      | none => exact plain_pure _
      | some s => exact plain_ask rfl
  | «while» condition turn span =>
    exact plain_loop (plain_ask_bind rfl fun _ => plain_pure _) (plain_ask rfl) (plain_pure _) turns
  | «for» init condition update turn span =>
    clear hs
    refine plain_act_bind (Run.plain_newScope scope []) fun inner => ?_
    rcases init with _ | s
    case' some => refine plain_ask_bind rfl fun _ => ?_
    all_goals
      refine plain_loop ?_ (plain_ask rfl) ?_ turns
      · cases condition with
        | none => exact plain_pure _
        | some e => exact plain_ask_bind rfl fun _ => plain_pure _
      · cases update with
        | none => exact plain_pure _
        | some e => exact plain_ask_bind rfl fun _ => plain_pure _
  | block statements span => exact plain_inNewScope statements scope
  | «return» e span =>
    cases e with
    | none => exact plain_pure _
    | some e => exact plain_ask_bind rfl fun _ => plain_pure _
  | throw e span => exact plain_ask_bind rfl fun _ => plain_act (Run.plain_stop trivial)
  | «break» span => exact plain_pure _
  | «continue» span => exact plain_pure _
  | «try» block param handler finalizer span => exact absurd rfl (hs _ _ _ _ _)

/-! ### Expressions -/

theorem plain_values (scope : Scope) (es : List Expr) : (values scope es).Plain := by
  induction es with
  | nil => exact plain_pure _
  | cons e rest ih => exact plain_ask_bind rfl fun _ => ih.bind fun _ => plain_pure _

theorem plain_properties (scope : Scope) (fields : List (String × Expr)) :
    (properties scope fields).Plain := by
  induction fields with
  | nil => exact plain_pure _
  | cons field rest ih => exact plain_ask_bind rfl fun _ => ih.bind fun _ => plain_pure _

theorem plain_ofExpr (scope : Scope) (e : Expr) : (ofExpr scope e).Plain := by
  cases e with
  | number x span => exact plain_pure _
  | string s span => exact plain_pure _
  | bool b span => exact plain_pure _
  | null span => exact plain_pure _
  | identifier name span => exact plain_act (Evaluate.plain_getVariable scope name)
  | this span => exact plain_act_bind Run.plain_heap fun _ => plain_pure _
  | array items span =>
    exact (plain_values scope items).bind fun _ => plain_act (Run.plain_newArray _)
  | object fields span =>
    exact (plain_properties scope fields).bind fun _ => plain_act (Run.plain_newObject _)
  | function literal => exact plain_act (Evaluate.plain_functionValue literal scope)
  | unary op operand span =>
    refine plain_act_bind Run.plain_heap fun h => ?_
    split
    · exact plain_pure _
    · exact plain_ask_bind rfl fun _ => plain_pure _
  | binary op left right span =>
    exact plain_ask_bind rfl fun _ => plain_ask_bind rfl fun _ =>
      plain_act_bind Run.plain_heap fun _ => plain_pure _
  | logical op left right span =>
    refine plain_ask_bind rfl fun a => ?_
    split
    · exact plain_pure _
    · exact plain_ask rfl
  | conditional test consequent alternate span =>
    refine plain_ask_bind rfl fun v => ?_
    split
    · exact plain_ask rfl
    · exact plain_ask rfl
  | assign op target e span =>
    refine match op with
      | none => plain_ask_bind rfl fun p => plain_ask_bind rfl fun v => ?_
      | some op => plain_ask_bind rfl fun p =>
          plain_act_bind (Evaluate.plain_getPlace scope p) fun current =>
            plain_ask_bind rfl fun operand => plain_act_bind Run.plain_heap fun h => ?_
    · exact plain_act_bind (Evaluate.plain_putPlace _ _ _) fun _ => plain_pure _
    · exact plain_act_bind (Evaluate.plain_putPlace _ _ _) fun _ => plain_pure _
  | update step side target span =>
    exact plain_ask_bind rfl fun p => plain_act_bind (Evaluate.plain_getPlace scope p) fun v =>
      plain_act_bind (Evaluate.plain_putPlace _ _ _) fun _ => plain_pure _
  | call callee arguments span =>
    refine plain_ask_bind rfl fun (f, this) => (plain_values scope arguments).bind fun args => ?_
    split
    · exact plain_ask rfl
    · exact plain_raise _ _
  | member object property span =>
    exact plain_ask_bind rfl fun _ => plain_act (Evaluate.plain_getProperty _ _)
  | index object index span =>
    exact plain_ask_bind rfl fun _ => plain_ask_bind rfl fun _ =>
      plain_act_bind Run.plain_heap fun _ => plain_act (Evaluate.plain_getProperty _ _)

theorem plain_ofTarget (scope : Scope) (e : Expr) : (ofTarget scope e).Plain := by
  unfold ofTarget
  split
  · exact plain_pure _
  · exact plain_ask_bind rfl fun _ => plain_pure _
  · exact plain_ask_bind rfl fun _ => plain_ask_bind rfl fun _ =>
      plain_act_bind Run.plain_heap fun _ => plain_pure _
  · exact plain_raise _ _

theorem plain_ofCallee (scope : Scope) (e : Expr) : (ofCallee scope e).Plain := by
  unfold ofCallee
  split
  · exact plain_ask_bind rfl fun _ =>
      plain_act_bind (Evaluate.plain_getProperty _ _) fun _ => plain_pure _
  · exact plain_ask_bind rfl fun _ => plain_ask_bind rfl fun _ =>
      plain_act_bind Run.plain_heap fun _ =>
      plain_act_bind (Evaluate.plain_getProperty _ _) fun _ => plain_pure _
  · exact plain_ask_bind rfl fun _ => plain_pure _

/-! ### Calls and strategies -/

theorem plain_require (home : Path) (args : List Value) : (require home args).Plain := by
  unfold require
  split
  · refine plain_act_bind Run.plain_machine fun m => ?_
    split
    · exact plain_raise _ _
    · exact plain_ask rfl
  · exact plain_raise _ _

/-- The call of anything but a script function has a plain plan. -/
theorem plain_ofCall (f this : Value) (args : List Value) (hf : ∀ id, f ≠ .function id) :
    (ofCall f this args).Plain := by
  unfold ofCall
  split
  · exact absurd rfl (hf _)
  · exact plain_require _ _
  · exact plain_act (Builtin.plain_call _ _ _)
  · exact plain_raise _ _

theorem plain_startScript (u : Module) : (startScript u).Plain := by
  refine plain_act_bind (Evaluate.plain_sourceOf u.id) fun source =>
    plain_act_bind (Evaluate.plain_compile source) fun r => ?_
  split
  · exact plain_act (Run.plain_stop nofun)
  · exact plain_act_bind Run.plain_heap fun _ => plain_ask_bind rfl fun _ => plain_pure _

theorem plain_ofStart (u : Module) (s : Strategy) : (ofStart u s).Plain := by
  cases s with
  | json => exact plain_act (Evaluate.plain_loadJson u)
  | script => exact plain_startScript u

end Plan

end ModuleLoader
