import ModuleLoader.Proofs.Inert
import ModuleLoader.Proofs.Shapes

/-! Regimes of scripts. What a run does with scopes, functions and trees comes down to a few things:
it makes a frame, declares a variable in a scope or assigns to one, makes a function of a literal,
and goes on to the parts of a tree. A regime that these keep up is kept up by all tasks. -/
namespace ModuleLoader

open Script

/-- The completion ends a loop or its turn. -/
def Completion.isExit : Completion → Bool
  | «break» | «continue» => true
  | _ => false

/-- If statements end in a loop exit, it is one that leaves them. -/
def Task.Exits : (t : Task) → t.Result → Prop
  | statement s _, c => c.isExit = true → s.Escapes
  | body statements _, c => c.isExit = true → ∃ s ∈ statements, s.Escapes
  | value _ _, _ | place _ _, _ | method _ _, _ | call _ _ _, _ | load _ _, _ | start _ _, _ => True

/-- The heaps, scopes and trees that a run stays among. -/
structure Regime where
  heap : Heap → Prop
  scope : Scope → Prop
  node : Node → Prop
  /-- The expressions whose places may be asked for. -/
  target : Expr → Prop

namespace Regime

variable (R : Regime)

/-- What is written in the function is among the trees. -/
def Literal (literal : FunctionDef) : Prop :=
  ∀ s ∈ literal.body, R.node (.stmt s)

/-- The task works on such trees in such scopes. -/
def Admits : Task → Prop
  | .value e scope | .method e scope => R.node (.expr e) ∧ R.scope scope
  | .place e scope => R.node (.expr e) ∧ R.target e ∧ R.scope scope
  | .statement s scope => R.node (.stmt s) ∧ R.scope scope
  | .body statements scope => (∀ s ∈ statements, R.node (.stmt s)) ∧ R.scope scope
  | .call _ _ _ | .load _ _ | .start _ _ => True

/-- The heap and all tasks follow the regime. That a loop exit leaves the statements that end in it
holds under any. -/
def contract : Contract where
  holds m := R.heap m.heap
  admits := R.Admits
  gives := Task.Exits

/-- What scripts do keeps the regime up. -/
structure Lawful : Prop where
  part {x y : Node} (h : R.node x) (hy : y ∈ x.parts) : R.node y
  assigned {op : Option BinaryOp} {target e : Expr} {span : Span}
    (h : R.node (.expr (.assign op target e span))) : R.target target
  updated {step : Step} {side : Side} {target : Expr} {span : Span}
    (h : R.node (.expr (.update step side target span))) : R.target target
  program {source : String} {p : Program} (h : Program.ofSource source = .ok p) :
    R.Literal (Evaluate.moduleFunction p)
  data {h h' : Heap} (hcode : h'.code = h.code) (hh : R.heap h) : R.heap h'
  newFrame {h : Heap} (hh : R.heap h) (outer : Scope) (frame : Frame) :
    R.heap (h.newFrame frame).2 ∧ R.scope ((h.newFrame frame).1 :: outer)
  declare {h : Heap} (hh : R.heap h) {id : FrameId} {outer : Scope} (hs : R.scope (id :: outer))
    (name : String) (value : Value) (mutable : Bool) : R.heap (h.declare id name value mutable)
  assign {h : Heap} (hh : R.heap h) {scope : Scope} (hs : R.scope scope) {name : String}
    (hfault : h.assignFault? scope name = none) (value : Value) :
    R.heap (h.assign scope name value)
  newClosure {h : Heap} (hh : R.heap h) {c : Closure} (hc : R.Literal c.literal) :
    R.heap (h.newClosure c).2
  closure {h : Heap} (hh : R.heap h) (id : FunctionId) : R.Literal (h.closure id).literal

namespace Lawful

variable {R}

theorem expression (hR : R.Lawful) {literal : FunctionDef}
    (h : R.node (.expr (.function literal))) : R.Literal literal := by
  obtain ⟨name, params, body, span⟩ := literal
  exact fun s hs => hR.part h (List.mem_map_of_mem hs)

theorem declaration (hR : R.Lawful) {literal : FunctionDef}
    (h : R.node (.stmt (.function literal))) : R.Literal literal := by
  obtain ⟨name, params, body, span⟩ := literal
  exact fun s hs => hR.part h (List.mem_map_of_mem hs)

end Lawful

end Regime

section Walk

variable {R : Regime} (hR : R.Lawful)

include hR

/-! ### Acts -/

namespace Run

variable {α : Type} {x : Run α}

theorem keeps_inert (hx : x.Inert) : x.Keeps R.contract.holds fun _ => True :=
  fun m r m' hm h => ⟨hR.data (hx m r m' h) hm, fun _ _ => trivial⟩

theorem keeps_newScope (outer : Scope) (frame : Frame) :
    (newScope outer frame).Keeps R.contract.holds R.scope := by
  intro m r m' hm h
  cases h
  obtain ⟨hm', hs⟩ := hR.newFrame hm outer frame
  exact ⟨hm', fun scope hscope => Except.ok.inj hscope ▸ hs⟩

theorem keeps_declare {scope : Scope} (hs : R.scope scope) (name : String) (value : Value)
    (mutable : Bool) : (declare scope name value mutable).Keeps R.contract.holds fun _ => True := by
  cases scope with
  | nil => exact keeps_pure trivial
  | cons id outer =>
    intro m r m' hm h
    cases h
    exact ⟨hR.declare hm hs name value mutable, fun _ _ => trivial⟩

theorem keeps_newFunction {literal : FunctionDef} (h : R.Literal literal) (scope : Scope) :
    (newFunction literal scope).Keeps R.contract.holds fun _ => True := by
  intro m r m' hm h'
  cases h'
  exact ⟨hR.newClosure hm h, fun _ _ => trivial⟩

end Run

namespace Evaluate

open Run

theorem keeps_putVariable {scope : Scope} (hs : R.scope scope) (name : String) (value : Value) :
    (putVariable scope name value).Keeps R.contract.holds fun _ => True := by
  intro m r m' hm h
  unfold putVariable at h
  rw [Machine.run_bind_ok Machine.run_heap] at h
  split at h
  · exact keeps_inert hR (inert_raise _ _) m r m' hm h
  · exact keeps_inert hR (inert_raise _ _) m r m' hm h
  · rename_i hfault
    cases h
    exact ⟨hR.assign hm hs hfault value, fun _ _ => trivial⟩

theorem keeps_putPlace {scope : Scope} (hs : R.scope scope) (value : Value) (p : Place) :
    (putPlace scope value p).Keeps R.contract.holds fun _ => True := by
  cases p with
  | «variable» name => exact keeps_putVariable hR hs name value
  | property target key => exact keeps_inert hR (inert_putProperty target key value)

theorem keeps_hoist {scope : Scope} (hs : R.scope scope) {statements : List Stmt}
    (h : ∀ s ∈ statements, R.node (.stmt s)) :
    (hoist scope statements).Keeps R.contract.holds fun _ => True := by
  fun_induction hoist scope statements with
  | case1 => exact keeps_pure trivial
  | case2 literal rest scope name hname ih =>
    obtain ⟨hliteral, hrest⟩ := List.forall_mem_cons.mp h
    refine (keeps_newFunction hR (hR.declaration hliteral) _).bind fun f _ => ?_
    exact (keeps_declare hR hs _ f true).bind fun _ _ => ih hrest
  | case3 literal rest scope hname ih => exact ih (List.forall_mem_cons.mp h).2
  | case4 s rest hs ih => exact ih (List.forall_mem_cons.mp h).2

theorem keeps_functionValue {literal : FunctionDef} (h : R.Literal literal) (scope : Scope) :
    (functionValue literal scope).Keeps R.contract.holds fun _ => True := by
  unfold functionValue
  split
  · exact keeps_newFunction hR h scope
  · refine (keeps_newScope hR scope []).bind fun own hown => ?_
    refine (keeps_newFunction hR h own).bind fun f _ => ?_
    exact (keeps_declare hR hown _ f false).bind fun _ _ => keeps_pure trivial

theorem keeps_compile (source : String) :
    (compile source).Keeps R.contract.holds fun _ => True := by
  unfold compile
  split
  · exact keeps_pure trivial
  · rename_i p hp
    exact (keeps_newFunction hR (hR.program hp) globalScope).bind fun f _ => keeps_pure trivial

end Evaluate

namespace Plan

variable {scope : Scope}

/-! ### Plans of one task -/

omit hR in
theorem keeps_value {e : Expr} (h : R.node (.expr e)) (hs : R.scope scope) :
    (value e scope).Keeps R.contract fun _ => True :=
  ⟨⟨h, hs⟩, fun _ _ => trivial⟩

omit hR in
theorem keeps_statement {s : Stmt} (h : R.node (.stmt s)) (hs : R.scope scope) :
    (statement s scope).Keeps R.contract fun c => c.isExit = true → s.Escapes :=
  ⟨⟨h, hs⟩, fun _ hc => hc⟩

omit hR in
theorem keeps_attemptBody {statements : List Stmt} (h : ∀ s ∈ statements, R.node (.stmt s))
    (hs : R.scope scope) : (attemptBody statements scope).Keeps R.contract
      fun r => ∀ c, r = .ok c → c.isExit = true → ∃ s ∈ statements, s.Escapes :=
  ⟨⟨h, hs⟩, fun _ hr => hr⟩

theorem keeps_inert {α : Type} {x : Run α} (hx : x.Inert) :
    (act x done).Keeps R.contract fun _ => True :=
  Run.keeps_inert hR hx

theorem keeps_inert_bind {α β : Type} {x : Run α} {f : α → Plan β} {Q : β → Prop} (hx : x.Inert)
    (hf : ∀ a, (f a).Keeps R.contract Q) : (act x done >>= f).Keeps R.contract Q :=
  (keeps_inert hR hx).bind fun a _ => hf a

theorem keeps_newScope_bind {β : Type} (frame : Frame) {f : Scope → Plan β} {Q : β → Prop}
    (hf : ∀ inner, R.scope inner → (f inner).Keeps R.contract Q) :
    (act (Run.newScope scope frame) done >>= f).Keeps R.contract Q :=
  have hinner : (act (Run.newScope scope frame) done).Keeps R.contract R.scope :=
    Run.keeps_newScope hR scope frame
  hinner.bind hf

theorem keeps_putPlace_bind {β : Type} (hs : R.scope scope) (v : Value) (p : Place)
    {f : Unit → Plan β} {Q : β → Prop} (hf : ∀ a, (f a).Keeps R.contract Q) :
    (act (Evaluate.putPlace scope v p) done >>= f).Keeps R.contract Q :=
  have hput : (act (Evaluate.putPlace scope v p) done).Keeps R.contract fun _ => True :=
    Evaluate.keeps_putPlace hR hs v p
  hput.bind fun a _ => hf a

/-! ### Expressions -/

variable (hs : R.scope scope)

include hs

omit hR in
theorem keeps_values {es : List Expr} (h : ∀ e ∈ es, R.node (.expr e)) :
    (values scope es).Keeps R.contract fun _ => True := by
  induction es with
  | nil => trivial
  | cons e rest ih =>
    obtain ⟨he, hrest⟩ := List.forall_mem_cons.mp h
    exact (keeps_value he hs).bind fun _ _ => (ih hrest).bind fun _ _ => trivial

omit hR in
theorem keeps_properties {fields : List (String × Expr)}
    (h : ∀ p ∈ fields, R.node (.expr p.2)) :
    (properties scope fields).Keeps R.contract fun _ => True := by
  induction fields with
  | nil => trivial
  | cons field rest ih =>
    obtain ⟨hfield, hrest⟩ := List.forall_mem_cons.mp h
    exact (keeps_value hfield hs).bind fun _ _ => (ih hrest).bind fun _ _ => trivial

theorem keeps_ofExpr {e : Expr} (h : R.node (.expr e)) :
    (ofExpr scope e).Keeps R.contract fun _ => True := by
  have hpart (e' : Expr) (he' : .expr e' ∈ e.parts) : R.node (.expr e') := hR.part h he'
  cases e with
  | number | string | bool | null => trivial
  | identifier name => exact keeps_inert hR (Evaluate.inert_getVariable scope name)
  | this => exact keeps_inert_bind hR Run.inert_heap fun _ => trivial
  | array items =>
    exact (keeps_values hs fun e he => hpart e (List.mem_map_of_mem he)).bind fun _ _ =>
      keeps_inert hR (Run.inert_newArray _)
  | object fields =>
    have hfield (p : String × Expr) (hp : p ∈ fields) : R.node (.expr p.2) :=
      hpart p.2 (List.mem_map.mpr ⟨p, hp, rfl⟩)
    exact (keeps_properties hs hfield).bind fun _ _ => keeps_inert hR (Run.inert_newObject _)
  | function literal =>
    exact Evaluate.keeps_functionValue hR (hR.expression h) scope
  | unary op operand =>
    refine keeps_inert_bind hR Run.inert_heap fun heap => ?_
    split
    · trivial
    · exact (keeps_value (hpart operand (by simp [Expr.parts])) hs).bind fun _ _ => trivial
  | binary op left right =>
    exact (keeps_value (hpart left (by simp [Expr.parts])) hs).bind fun _ _ =>
      (keeps_value (hpart right (by simp [Expr.parts])) hs).bind fun _ _ =>
        keeps_inert_bind hR Run.inert_heap fun _ => trivial
  | logical op left right =>
    refine (keeps_value (hpart left (by simp [Expr.parts])) hs).bind fun v _ => ?_
    split
    · trivial
    · exact keeps_value (hpart right (by simp [Expr.parts])) hs
  | conditional test consequent alternate =>
    refine (keeps_value (hpart test (by simp [Expr.parts])) hs).bind fun v _ => ?_
    split
    · exact keeps_value (hpart consequent (by simp [Expr.parts])) hs
    · exact keeps_value (hpart alternate (by simp [Expr.parts])) hs
  | assign op target e =>
    have hplace : (place target scope).Keeps R.contract fun _ => True :=
      ⟨⟨hpart target (by simp [Expr.parts]), hR.assigned h, hs⟩, fun _ _ => trivial⟩
    have he := keeps_value (hpart e (by simp [Expr.parts])) hs
    cases op with
    | none =>
      exact hplace.bind fun p _ => he.bind fun v _ =>
        keeps_putPlace_bind hR hs _ _ fun _ => trivial
    | some op =>
      exact hplace.bind fun p _ => keeps_inert_bind hR (Evaluate.inert_getPlace scope p) fun _ =>
        he.bind fun v _ => keeps_inert_bind hR Run.inert_heap fun _ =>
          keeps_putPlace_bind hR hs _ _ fun _ => trivial
  | update step side target =>
    have hplace : (place target scope).Keeps R.contract fun _ => True :=
      ⟨⟨hpart target (by simp [Expr.parts]), hR.updated h, hs⟩, fun _ _ => trivial⟩
    exact hplace.bind fun p _ =>
      keeps_inert_bind hR (Evaluate.inert_getPlace scope p) fun _ =>
        keeps_putPlace_bind hR hs _ _ fun _ => trivial
  | call callee args =>
    have hargs (a : Expr) (ha : a ∈ args) : R.node (.expr a) :=
      hpart a (List.mem_cons_of_mem _ (List.mem_map_of_mem ha))
    have hcallee : (method callee scope).Keeps R.contract fun _ => True :=
      ⟨⟨hpart callee (by simp [Expr.parts]), hs⟩, fun _ _ => trivial⟩
    refine hcallee.bind ?_
    rintro ⟨f, this⟩ -
    refine (keeps_values hs hargs).bind fun vs _ => ?_
    split
    · exact ⟨trivial, fun _ _ => trivial⟩
    · exact keeps_inert hR (Run.inert_raise _ _)
  | member object =>
    exact (keeps_value (hpart object (by simp [Expr.parts])) hs).bind fun _ _ =>
      keeps_inert hR (Evaluate.inert_getProperty _ _)
  | index object index =>
    exact (keeps_value (hpart object (by simp [Expr.parts])) hs).bind fun _ _ =>
      (keeps_value (hpart index (by simp [Expr.parts])) hs).bind fun _ _ =>
        keeps_inert_bind hR Run.inert_heap fun _ => keeps_inert hR (Evaluate.inert_getProperty _ _)

theorem keeps_ofTarget {e : Expr} (h : R.node (.expr e)) :
    (ofTarget scope e).Keeps R.contract fun _ => True := by
  have hpart (e' : Expr) (he' : .expr e' ∈ e.parts) : R.node (.expr e') := hR.part h he'
  unfold ofTarget
  split
  · trivial
  · exact (keeps_value (hpart _ (by simp [Expr.parts])) hs).bind fun _ _ => trivial
  · exact (keeps_value (hpart _ (by simp [Expr.parts])) hs).bind fun _ _ =>
      (keeps_value (hpart _ (by simp [Expr.parts])) hs).bind fun _ _ =>
        keeps_inert_bind hR Run.inert_heap fun _ => trivial
  · exact keeps_inert hR (Run.inert_raise _ _)

theorem keeps_ofCallee {e : Expr} (h : R.node (.expr e)) :
    (ofCallee scope e).Keeps R.contract fun _ => True := by
  have hpart (e' : Expr) (he' : .expr e' ∈ e.parts) : R.node (.expr e') := hR.part h he'
  unfold ofCallee
  split
  · exact (keeps_value (hpart _ (by simp [Expr.parts])) hs).bind fun _ _ =>
      keeps_inert_bind hR (Evaluate.inert_getProperty _ _) fun _ => trivial
  · exact (keeps_value (hpart _ (by simp [Expr.parts])) hs).bind fun _ _ =>
      (keeps_value (hpart _ (by simp [Expr.parts])) hs).bind fun _ _ =>
        keeps_inert_bind hR Run.inert_heap fun _ =>
          keeps_inert_bind hR (Evaluate.inert_getProperty _ _) fun _ => trivial
  · exact (keeps_value h hs).bind fun _ _ => trivial

/-! ### Statements -/

theorem keeps_ofBody {statements : List Stmt} (h : ∀ s ∈ statements, R.node (.stmt s)) :
    (ofBody statements scope).Keeps R.contract
      fun c => c.isExit = true → ∃ s ∈ statements, s.Escapes := by
  have hhoist : (act (Evaluate.hoist scope statements) done).Keeps R.contract fun _ => True :=
    Evaluate.keeps_hoist hR hs h
  refine hhoist.bind fun _ _ => ?_
  clear hhoist
  induction statements with
  | nil => exact nofun
  | cons s rest ih =>
    obtain ⟨hstatement, hrest⟩ := List.forall_mem_cons.mp h
    refine (keeps_statement hstatement hs).bind fun c hc => ?_
    cases c with
    | normal =>
      refine (ih hrest).imp fun c hc hexit => ?_
      obtain ⟨s', hs', hescapes⟩ := hc hexit
      exact ⟨s', List.mem_cons_of_mem _ hs', hescapes⟩
    | «return» => exact nofun
    | «break» | «continue» => exact fun _ => ⟨s, List.mem_cons_self .., hc rfl⟩

omit hs in
theorem keeps_inNewScope {statements : List Stmt} (h : ∀ s ∈ statements, R.node (.stmt s)) :
    (inNewScope statements scope).Keeps R.contract
      fun c => c.isExit = true → ∃ s ∈ statements, s.Escapes :=
  keeps_newScope_bind hR [] fun _ hinner => ⟨⟨h, hinner⟩, fun _ hc => hc⟩

omit hR hs in
/-- A loop takes the exits of its turns for its own. -/
theorem keeps_loop {condition : Plan Bool} {turn : Plan Completion} {update : Plan Unit}
    (hc : condition.Keeps R.contract fun _ => True) (ht : turn.Keeps R.contract fun _ => True)
    (hu : update.Keeps R.contract fun _ => True) (turns : Nat) :
    (loop condition turn update turns).Keeps R.contract fun c => c.isExit = false := by
  induction turns with
  | zero => exact Run.keeps_cutOff
  | succ turns ih =>
    refine hc.bind fun b _ => ?_
    split
    · refine ht.bind fun c _ => ?_
      split
      · exact rfl
      · exact rfl
      · exact hu.bind fun _ _ => ih
    · exact rfl

theorem keeps_declarations {kind : DeclarationWord} {ds : List (String × Option Expr)}
    (h : ∀ d ∈ ds, ∀ e ∈ d.2, R.node (.expr e)) :
    (declarations kind scope ds).Keeps R.contract fun _ => True := by
  have hdeclare (name : String) (v : Value) :
      (act (Run.declare scope name v (kind ≠ .«const»)) done).Keeps R.contract fun _ => True :=
    Run.keeps_declare hR hs name v _
  induction ds with
  | nil => trivial
  | cons d rest ih =>
    obtain ⟨hd, hrest⟩ := List.forall_mem_cons.mp h
    obtain ⟨name, init⟩ := d
    cases init with
    | none => exact (hdeclare name _).bind fun _ _ => ih hrest
    | some e =>
      exact (keeps_value (hd e rfl) hs).bind fun v _ =>
        (hdeclare name v).bind fun _ _ => ih hrest

omit hs in
/-- A guarded block ends in a loop exit only if one of its clauses does: the finalizer, or the part
of it that ran last. -/
theorem keeps_guarded {block : List Stmt} {param : Option String}
    {handler finalizer : Option (List Stmt)} {span : Span}
    (hblock : ∀ s ∈ block, R.node (.stmt s))
    (hhandler : ∀ b ∈ handler, ∀ s ∈ b, R.node (.stmt s))
    (hfinalizer : ∀ b ∈ finalizer, ∀ s ∈ b, R.node (.stmt s)) :
    (guarded block param handler finalizer scope).Keeps R.contract
      fun c => c.isExit = true → (Stmt.try block param handler finalizer span).Escapes := by
  -- How the block and its handler end, before the finalizer runs.
  let Ends (r : Except Exception Completion) : Prop :=
    ∀ c, r = .ok c → c.isExit = true → (Stmt.try block param handler finalizer span).Escapes
  have hhandled (r : Except Exception Completion) (hr : Ends r) :
      (handled r param handler scope).Keeps R.contract Ends := by
    unfold handled
    split
    · refine keeps_inert_bind hR (inert_handlerFrame param _) fun frame => ?_
      refine keeps_newScope_bind hR frame fun inner hinner => ?_
      refine (keeps_attemptBody (hhandler _ rfl) hinner).imp fun r hr c hc hexit => ?_
      obtain ⟨s, hs, hescapes⟩ := hr c hc hexit
      exact .handler hs hescapes
    · exact hr
  have hfinalized (r : Except Exception Completion) (hr : Ends r) :
      (finalized r finalizer scope).Keeps R.contract
        fun c => c.isExit = true → (Stmt.try block param handler finalizer span).Escapes := by
    cases finalizer with
    | none => exact Run.keeps_resume hr
    | some finalizer =>
      refine (keeps_inNewScope hR (hfinalizer finalizer rfl)).bind fun c hc => ?_
      cases c with
      | normal => exact Run.keeps_resume hr
      | «return» => exact nofun
      | «break» | «continue» =>
        obtain ⟨s, hs, hescapes⟩ := hc rfl
        exact fun _ => .finalizer hs hescapes
  refine keeps_newScope_bind hR [] fun inner hinner => ?_
  refine (keeps_attemptBody hblock hinner).bind fun r hr => ?_
  have hends : Ends r := by
    intro c hc hexit
    obtain ⟨s, hs, hescapes⟩ := hr c hc hexit
    exact .guarded hs hescapes
  exact (hhandled r hends).bind hfinalized

theorem keeps_ofStmt (turns : Nat) {s : Stmt} (h : R.node (.stmt s)) :
    (ofStmt turns scope s).Keeps R.contract fun c => c.isExit = true → s.Escapes := by
  have hexpr (e : Expr) (he : .expr e ∈ s.parts) : R.node (.expr e) := hR.part h he
  have hstmt (s' : Stmt) (hs' : .stmt s' ∈ s.parts) : R.node (.stmt s') := hR.part h hs'
  -- Only the last of a statement's tasks has a say in how it ends.
  have hvalue (e : Expr) (he : .expr e ∈ s.parts) {scope : Scope} (hs : R.scope scope) :
      (value e scope).Keeps R.contract fun _ => True := keeps_value (hexpr e he) hs
  have hturn (s' : Stmt) (hs' : .stmt s' ∈ s.parts) {scope : Scope} (hs : R.scope scope) :
      (statement s' scope).Keeps R.contract fun _ => True :=
    (keeps_statement (hstmt s' hs') hs).imp fun _ _ => trivial
  have hnone {c : Completion} (hc : c.isExit = false) (hexit : c.isExit = true) : s.Escapes := by
    rw [hc] at hexit
    contradiction
  cases s with
  | declaration kind ds =>
    refine (keeps_declarations hR hs fun d hd e he => hexpr e ?_).bind fun _ _ => hnone rfl
    exact List.mem_flatMap.mpr ⟨d, hd, by rw [he]; exact List.mem_singleton_self _⟩
  | function | empty => exact hnone rfl
  | expression e => exact (hvalue e (by simp [Stmt.parts]) hs).bind fun _ _ => hnone rfl
  | «if» condition consequent alternate =>
    refine (hvalue condition (by simp [Stmt.parts]) hs).bind fun v _ => ?_
    split
    · exact (keeps_statement (hstmt consequent (by simp [Stmt.parts])) hs).imp
        fun c hc hexit => .consequent (hc hexit)
    · cases alternate with
      | none => exact hnone rfl
      | some s' =>
        exact (keeps_statement (hstmt s' (by simp [Stmt.parts])) hs).imp
          fun c hc hexit => .alternate (hc hexit)
  | «while» condition turn =>
    have hcondition : (do return (← value condition scope).truthy : Plan Bool).Keeps R.contract
        fun _ => True := (hvalue condition (by simp [Stmt.parts]) hs).bind fun _ _ => trivial
    have hupdate : (pure () : Plan Unit).Keeps R.contract fun _ => True := trivial
    exact (keeps_loop hcondition (hturn turn (by simp [Stmt.parts]) hs) hupdate turns).imp
      fun _ hc => hnone hc
  | «for» init condition update turn =>
    refine keeps_newScope_bind hR [] fun inner hinner => ?_
    have hturn' := hturn turn (by simp [Stmt.parts]) hinner
    rcases init with _ | s'
    case' some => refine (hturn s' (by simp [Stmt.parts]) hinner).bind fun _ _ => ?_
    all_goals
      refine (keeps_loop ?_ hturn' ?_ turns).imp fun _ hc => hnone hc
      · cases condition with
        | none => trivial
        | some e => exact (hvalue e (by simp [Stmt.parts]) hinner).bind fun _ _ => trivial
      · cases update with
        | none => trivial
        | some e => exact (hvalue e (by simp [Stmt.parts]) hinner).bind fun _ _ => trivial
  | block statements =>
    refine (keeps_inNewScope hR fun s hs => hstmt s (List.mem_map_of_mem hs)).imp ?_
    intro c hc hexit
    obtain ⟨s, hs, hescapes⟩ := hc hexit
    exact .block hs hescapes
  | «return» e =>
    cases e with
    | none => exact hnone rfl
    | some e => exact (hvalue e (by simp [Stmt.parts]) hs).bind fun _ _ => hnone rfl
  | throw e =>
    exact (hvalue e (by simp [Stmt.parts]) hs).bind fun _ _ => Run.keeps_stop _
  | «break» => exact fun _ => .break
  | «continue» => exact fun _ => .continue
  | «try» block param handler finalizer =>
    refine keeps_guarded hR (fun s hs => hstmt s (by simp_all [Stmt.parts])) ?_ ?_
    · rintro b rfl s hs
      exact hstmt s (by simp_all [Stmt.parts])
    · rintro b rfl s hs
      exact hstmt s (by simp_all [Stmt.parts])

/-! ### Calls and modules -/

omit hs

theorem keeps_callFunction (f : FunctionId) (this : Value) (args : List Value) :
    (callFunction f this args).Keeps R.contract fun _ => True := by
  rw [callFunction_eq]
  refine Run.keeps_machine.imp fun m _ => ?_
  dsimp only
  split
  · exact keeps_inert hR (Run.inert_raise _ _)
  · have hheap : Run.heap.Keeps R.contract.holds fun h => R.Literal (h.closure f).literal := by
      intro m r m' hm h
      cases h
      exact ⟨hm, fun h hh => Except.ok.inj hh ▸ hR.closure hm f⟩
    refine (Run.keeps_inert hR Run.inert_enter).imp fun _ _ => hheap.imp fun h hliteral => ?_
    refine (Run.keeps_newScope hR _ _).imp fun scope hs => ⟨⟨hliteral, hs⟩, fun r _ => ?_⟩
    refine keeps_inert_bind hR Run.inert_leave fun _ => ?_
    exact keeps_inert_bind hR (Run.inert_resume r) fun _ => trivial

theorem keeps_ofCall (f this : Value) (args : List Value) :
    (ofCall f this args).Keeps R.contract fun _ => True := by
  unfold ofCall
  split
  · exact keeps_callFunction hR _ this args
  · unfold require
    split
    · refine keeps_inert_bind hR Run.inert_machine fun m => ?_
      split
      · exact keeps_inert hR (Run.inert_raise _ _)
      · exact ⟨trivial, fun _ _ => trivial⟩
    · exact keeps_inert hR (Run.inert_raise _ _)
  · exact keeps_inert hR (Builtin.inert_call _ _ _)
  · exact keeps_inert hR (Run.inert_raise _ _)

theorem keeps_ofStart (u : Module) (s : Strategy) :
    (ofStart u s).Keeps R.contract fun _ => True := by
  cases s with
  | json => exact keeps_inert hR (Evaluate.inert_loadJson u)
  | script =>
    refine keeps_inert_bind hR (Evaluate.inert_sourceOf u.id) fun source => ?_
    have hcompile : (act (Evaluate.compile source) done).Keeps R.contract fun _ => True :=
      Evaluate.keeps_compile hR source
    refine hcompile.bind fun r _ => ?_
    split
    · exact keeps_inert hR (Run.inert_stop _)
    · refine keeps_inert_bind hR Run.inert_heap fun h => ?_
      exact ⟨trivial, fun _ _ => trivial⟩

end Plan

/-- All tasks keep a regime up that scripts keep up. -/
theorem Regime.Lawful.kept : R.contract.Kept := by
  have hloading : R.contract.SparesLoading :=
    { modifyLoader := fun f => Run.keeps_inert hR (Run.inert_modifyLoader f)
      register := fun id => Run.keeps_inert hR (Evaluate.inert_register id)
      announce := fun u => Run.keeps_inert hR (Evaluate.inert_announce u) }
  intro n t ht
  cases t with
  | value e scope => exact Plan.keeps_ofExpr hR ht.2 ht.1
  | place e scope => exact Plan.keeps_ofTarget hR ht.2.2 ht.1
  | method e scope => exact Plan.keeps_ofCallee hR ht.2 ht.1
  | statement s scope => exact Plan.keeps_ofStmt hR ht.2 n ht.1
  | body statements scope => exact Plan.keeps_ofBody hR ht.2 ht.1
  | call f this args => exact Plan.keeps_ofCall hR f this args
  | load reference dir => exact Plan.keeps_ofLoad hloading (fun _ _ => trivial) reference dir
  | start u s => exact Plan.keeps_ofStart hR u s

end Walk

end ModuleLoader
