import ModuleLoader.Proofs.Doubles
import ModuleLoader.Proofs.Frames

/-! Scripts run again. The plans of a script that speaks of nothing shared ask on one side for the
twins of what they ask for on the other, so all its tasks end alike on twin heaps. -/
namespace ModuleLoader

open Script

variable {D : Doubling}

/-! ### Plans of one task -/

namespace Plan

open Run Evaluate

variable {scope scope' : Scope}

theorem pairs_act {α β : Type} {x : Run α} {x' : Run β} {Q : α → β → Prop}
    (h : x.Pairs D.pairing x' Q) : (act x done).Pairs D.pairing (act x' done) Q :=
  h

theorem pairs_value {e : Expr} (h : (Node.expr e).IsDiscreet)
    (hs : Scope.Twin D.relocation scope scope') :
    (value e scope).Pairs D.pairing (value e scope') (Value.Twin D.relocation) :=
  ⟨.value h hs, fun _ _ hv => hv⟩

theorem pairs_place {e : Expr} (h : (Node.expr e).IsDiscreet)
    (hs : Scope.Twin D.relocation scope scope') :
    (place e scope).Pairs D.pairing (place e scope') (Place.Twin D.relocation) :=
  ⟨.place h hs, fun _ _ hp => hp⟩

theorem pairs_statement {s : Stmt} (h : (Node.stmt s).IsDiscreet)
    (hs : Scope.Twin D.relocation scope scope') :
    (statement s scope).Pairs D.pairing (statement s scope') (Completion.Twin D.relocation) :=
  ⟨.statement h hs, fun _ _ hc => hc⟩

theorem pairs_attemptBody {statements : List Stmt}
    (h : ∀ s ∈ statements, (Node.stmt s).IsDiscreet) (hs : Scope.Twin D.relocation scope scope') :
    (attemptBody statements scope).Pairs D.pairing (attemptBody statements scope')
      (D.pairing.Results (Completion.Twin D.relocation)) :=
  ⟨.body h hs, fun _ _ hr => hr⟩

/-! ### Expressions -/

variable (hs : Scope.Twin D.relocation scope scope')

include hs

theorem pairs_values {es : List Expr} (h : ∀ e ∈ es, (Node.expr e).IsDiscreet) :
    (values scope es).Pairs D.pairing (values scope' es)
      (List.Forall₂ (Value.Twin D.relocation)) := by
  induction es with
  | nil => exact .nil
  | cons e rest ih =>
    obtain ⟨he, hrest⟩ := List.forall_mem_cons.mp h
    exact (pairs_value he hs).bind fun _ _ hv => (ih hrest).bind fun _ _ hvs => .cons hv hvs

theorem pairs_properties {fields : List (String × Expr)}
    (h : ∀ p ∈ fields, (Node.expr p.2).IsDiscreet) :
    (properties scope fields).Pairs D.pairing (properties scope' fields)
      (Properties.Twin D.relocation) := by
  induction fields with
  | nil => exact .nil
  | cons field rest ih =>
    obtain ⟨hfield, hrest⟩ := List.forall_mem_cons.mp h
    exact (pairs_value hfield hs).bind fun _ _ hv =>
      (ih hrest).bind fun _ _ hps => .cons ⟨rfl, hv⟩ hps

omit hs in
theorem asksTypeOfUndeclared_eq {h h' : Heap} (hh : h.Twin D.relocation h')
    (hs : Scope.Twin D.relocation scope scope') (op : UnaryOp) {operand : Expr}
    (hoperand : (Node.expr operand).IsDiscreet) :
    asksTypeOfUndeclared h scope op operand = asksTypeOfUndeclared h' scope' op operand := by
  unfold asksTypeOfUndeclared
  split
  · rename_i name span
    have hlookup := hh.lookup? hs hoperand.identifier
    generalize h.lookup? scope name = o, h'.lookup? scope' name = o' at hlookup
    cases hlookup <;> rfl
  · rfl

theorem pairs_ofExpr {e : Expr} (h : (Node.expr e).IsDiscreet) :
    (ofExpr scope e).Pairs D.pairing (ofExpr scope' e) (Value.Twin D.relocation) := by
  have hpart (e' : Expr) (he' : .expr e' ∈ e.parts) : (Node.expr e').IsDiscreet := h.part he'
  cases e with
  | number x => exact .number x
  | string s => exact .string s
  | bool b => exact .bool b
  | null => exact .null
  | identifier name => exact pairs_getVariable hs h.identifier
  | this =>
    refine Pairs.bind (pairs_act pairs_heap) fun h h' hh => ?_
    exact rel_getD (hh.lookup? hs (by decide)) .undefined
  | array items =>
    refine (pairs_values hs fun e he => hpart e (List.mem_map_of_mem he)).bind fun vs vs' hvs => ?_
    exact pairs_newArray hvs
  | object fields =>
    have hfield (p : String × Expr) (hp : p ∈ fields) : (Node.expr p.2).IsDiscreet :=
      hpart p.2 (List.mem_map.mpr ⟨p, hp, rfl⟩)
    exact (pairs_properties hs hfield).bind fun _ _ hps => pairs_newObject hps.ofPairs
  | function literal => exact pairs_functionValue h.expression hs
  | unary op operand =>
    have hoperand := hpart operand (by simp [Expr.parts])
    refine Pairs.bind (pairs_act pairs_heap) fun h h' hh => ?_
    rw [asksTypeOfUndeclared_eq hh hs op hoperand]
    split
    · exact .string _
    · exact (pairs_value hoperand hs).bind fun _ _ hv => hv.apply op
  | binary op left right =>
    refine (pairs_value (hpart left (by simp [Expr.parts])) hs).bind fun v v' hv => ?_
    refine (pairs_value (hpart right (by simp [Expr.parts])) hs).bind fun w w' hw => ?_
    exact Pairs.bind (pairs_act pairs_heap) fun h h' hh => hh.binary op hv hw
  | logical op left right =>
    refine (pairs_value (hpart left (by simp [Expr.parts])) hs).bind fun v v' hv => ?_
    rw [hv.decides_eq op]
    split
    · exact hv
    · exact pairs_value (hpart right (by simp [Expr.parts])) hs
  | conditional test consequent alternate =>
    refine (pairs_value (hpart test (by simp [Expr.parts])) hs).bind fun v v' hv => ?_
    rw [hv.truthy_eq]
    split
    · exact pairs_value (hpart consequent (by simp [Expr.parts])) hs
    · exact pairs_value (hpart alternate (by simp [Expr.parts])) hs
  | assign op target e =>
    have htarget := pairs_place (hpart target (by simp [Expr.parts])) hs
    have he := pairs_value (hpart e (by simp [Expr.parts])) hs
    cases op with
    | none =>
      refine htarget.bind fun p p' hp => he.bind fun v v' hv => ?_
      exact Pairs.bind (pairs_act (pairs_putPlace hs hv hp)) fun _ _ _ => hv
    | some op =>
      refine htarget.bind fun p p' hp => ?_
      refine Pairs.bind (pairs_act (pairs_getPlace hs hp)) fun v v' hv => ?_
      refine he.bind fun w w' hw => Pairs.bind (pairs_act pairs_heap) fun h h' hh => ?_
      have hvalue := hh.binary op hv hw
      exact Pairs.bind (pairs_act (pairs_putPlace hs hvalue hp)) fun _ _ _ => hvalue
  | update step side target =>
    refine (pairs_place (hpart target (by simp [Expr.parts])) hs).bind fun p p' hp => ?_
    refine Pairs.bind (pairs_act (pairs_getPlace hs hp)) fun v v' hv => ?_
    rw [hv.toNumber_eq]
    exact Pairs.bind (pairs_act (pairs_putPlace hs (.number _) hp)) fun _ _ _ => .number _
  | call callee args =>
    have hargs (a : Expr) (ha : a ∈ args) : (Node.expr a).IsDiscreet :=
      hpart a (List.mem_cons_of_mem _ (List.mem_map_of_mem ha))
    have hcallee : (method callee scope).Pairs D.pairing (method callee scope')
        fun f f' => f.1.Twin D.relocation f'.1 ∧ f.2.Twin D.relocation f'.2 :=
      ⟨.method (hpart callee (by simp [Expr.parts])) hs, fun _ _ hf => hf⟩
    refine hcallee.bind ?_
    rintro ⟨f, this⟩ ⟨f', this'⟩ ⟨hf, hthis⟩
    refine (pairs_values hs hargs).bind fun vs vs' hvs => ?_
    rw [hf.isCallable_eq]
    split
    · exact ⟨.call hf hthis hvs, fun _ _ hv => hv⟩
    · exact pairs_raise _ _
  | member object =>
    exact (pairs_value (hpart object (by simp [Expr.parts])) hs).bind fun _ _ hv =>
      pairs_getProperty hv _
  | index object index =>
    refine (pairs_value (hpart object (by simp [Expr.parts])) hs).bind fun v v' hv => ?_
    refine (pairs_value (hpart index (by simp [Expr.parts])) hs).bind fun w w' hw => ?_
    refine Pairs.bind (pairs_act pairs_heap) fun h h' hh => ?_
    rw [hh.keyOf_eq hw]
    exact pairs_getProperty hv _

theorem pairs_ofTarget {e : Expr} (h : (Node.expr e).IsDiscreet) :
    (ofTarget scope e).Pairs D.pairing (ofTarget scope' e) (Place.Twin D.relocation) := by
  have hpart (e' : Expr) (he' : .expr e' ∈ e.parts) : (Node.expr e').IsDiscreet := h.part he'
  unfold ofTarget
  split
  · exact .variable h.identifier
  · exact (pairs_value (hpart _ (by simp [Expr.parts])) hs).bind fun _ _ hv => .property hv _
  · refine (pairs_value (hpart _ (by simp [Expr.parts])) hs).bind fun v v' hv => ?_
    refine (pairs_value (hpart _ (by simp [Expr.parts])) hs).bind fun w w' hw => ?_
    refine Pairs.bind (pairs_act pairs_heap) fun h h' hh => ?_
    rw [hh.keyOf_eq hw]
    exact .property hv _
  · exact pairs_raise _ _

theorem pairs_ofCallee {e : Expr} (h : (Node.expr e).IsDiscreet) :
    (ofCallee scope e).Pairs D.pairing (ofCallee scope' e)
      fun f f' => f.1.Twin D.relocation f'.1 ∧ f.2.Twin D.relocation f'.2 := by
  have hpart (e' : Expr) (he' : .expr e' ∈ e.parts) : (Node.expr e').IsDiscreet := h.part he'
  unfold ofCallee
  split
  · refine (pairs_value (hpart _ (by simp [Expr.parts])) hs).bind fun v v' hv => ?_
    exact Pairs.bind (pairs_act (pairs_getProperty hv _)) fun _ _ hf => ⟨hf, hv⟩
  · refine (pairs_value (hpart _ (by simp [Expr.parts])) hs).bind fun v v' hv => ?_
    refine (pairs_value (hpart _ (by simp [Expr.parts])) hs).bind fun w w' hw => ?_
    refine Pairs.bind (pairs_act pairs_heap) fun h h' hh => ?_
    rw [hh.keyOf_eq hw]
    exact Pairs.bind (pairs_act (pairs_getProperty hv _)) fun _ _ hf => ⟨hf, hv⟩
  · exact (pairs_value h hs).bind fun _ _ hf => ⟨hf, .undefined⟩

/-! ### Statements -/

theorem pairs_ofBody {statements : List Stmt} (h : ∀ s ∈ statements, (Node.stmt s).IsDiscreet) :
    (ofBody statements scope).Pairs D.pairing (ofBody statements scope')
      (Completion.Twin D.relocation) := by
  refine Pairs.bind (pairs_act (pairs_hoist hs h)) fun _ _ _ => ?_
  induction statements with
  | nil => exact .normal
  | cons s rest ih =>
    obtain ⟨hstatement, hrest⟩ := List.forall_mem_cons.mp h
    refine (pairs_statement hstatement hs).bind fun c c' hc => ?_
    cases hc with
    | normal => exact ih hrest
    | «return» hv => exact .return hv
    | «break» => exact .break
    | «continue» => exact .continue

theorem pairs_inNewScope {statements : List Stmt}
    (h : ∀ s ∈ statements, (Node.stmt s).IsDiscreet) :
    (inNewScope statements scope).Pairs D.pairing (inNewScope statements scope')
      (Completion.Twin D.relocation) :=
  Pairs.bind (pairs_act (pairs_newScope hs .empty)) fun _ _ hinner =>
    ⟨.body h hinner, fun _ _ hc => hc⟩

omit hs in
theorem pairs_loop {condition condition' : Plan Bool} {turn turn' : Plan Completion}
    {update update' : Plan Unit} (hc : condition.Pairs D.pairing condition' Eq)
    (ht : turn.Pairs D.pairing turn' (Completion.Twin D.relocation))
    (hu : update.Pairs D.pairing update' fun _ _ => True) (turns : Nat) :
    (loop condition turn update turns).Pairs D.pairing (loop condition' turn' update' turns)
      (Completion.Twin D.relocation) := by
  induction turns with
  | zero => exact pairs_cutOff
  | succ turns ih =>
    refine hc.bind ?_
    rintro b _ rfl
    split
    · refine ht.bind fun c c' hc => ?_
      cases hc with
      | normal | «continue» => exact hu.bind fun _ _ _ => ih
      | «return» hv => exact .return hv
      | «break» => exact .normal
    · exact .normal

theorem pairs_declarations {kind : DeclarationWord} {ds : List (String × Option Expr)}
    (h : ∀ d ∈ ds, ∀ e ∈ d.2, (Node.expr e).IsDiscreet) :
    (declarations kind scope ds).Pairs D.pairing (declarations kind scope' ds)
      fun _ _ => True := by
  have hdeclare (name : String) {v v' : Value} (hv : v.Twin D.relocation v') :
      (act (Run.declare scope name v (kind ≠ .«const»)) done).Pairs D.pairing
        (act (Run.declare scope' name v' (kind ≠ .«const»)) done) fun _ _ => True :=
    pairs_declare hs name hv _
  induction ds with
  | nil => trivial
  | cons d rest ih =>
    obtain ⟨hd, hrest⟩ := List.forall_mem_cons.mp h
    obtain ⟨name, init⟩ := d
    cases init with
    | none => exact (hdeclare name .undefined).bind fun _ _ _ => ih hrest
    | some e =>
      exact (pairs_value (hd e rfl) hs).bind fun _ _ hv =>
        (hdeclare name hv).bind fun _ _ _ => ih hrest

omit hs in
theorem pairs_handlerFrame (param : Option String) {e e' : Exception}
    (he : e.Twin D.relocation e') :
    (handlerFrame param e).Pairs D.pairing (handlerFrame param e') (Frame.Twin D.relocation) := by
  cases param with
  | none => exact pairs_pure .empty
  | some name =>
    exact (pairs_caught he).bind fun _ _ hv => pairs_pure (Frame.Twin.empty.insert name hv true)

theorem pairs_handled {r r' : Except Exception Completion}
    (hr : D.pairing.Results (Completion.Twin D.relocation) r r') (param : Option String)
    {handler : Option (List Stmt)} (h : ∀ b ∈ handler, ∀ s ∈ b, (Node.stmt s).IsDiscreet) :
    (handled r param handler scope).Pairs D.pairing (handled r' param handler scope')
      (D.pairing.Results (Completion.Twin D.relocation)) := by
  cases hr with
  | ok hc => exact .ok hc
  | error he =>
    cases handler with
    | none => exact .error he
    | some handler =>
      refine Pairs.bind (pairs_act (pairs_handlerFrame param he)) fun f f' hf => ?_
      refine Pairs.bind (pairs_act (pairs_newScope hs hf)) fun inner inner' hinner => ?_
      exact pairs_attemptBody (h handler rfl) hinner

theorem pairs_finalized {r r' : Except Exception Completion}
    (hr : D.pairing.Results (Completion.Twin D.relocation) r r') {finalizer : Option (List Stmt)}
    (h : ∀ b ∈ finalizer, ∀ s ∈ b, (Node.stmt s).IsDiscreet) :
    (finalized r finalizer scope).Pairs D.pairing (finalized r' finalizer scope')
      (Completion.Twin D.relocation) := by
  cases finalizer with
  | none => exact pairs_resume hr
  | some finalizer =>
    refine (pairs_inNewScope hs (h finalizer rfl)).bind fun c c' hc => ?_
    cases hc with
    | normal => exact pairs_resume hr
    | «return» hv => exact .return hv
    | «break» => exact .break
    | «continue» => exact .continue

theorem pairs_guarded {block : List Stmt} (param : Option String)
    {handler finalizer : Option (List Stmt)} (hblock : ∀ s ∈ block, (Node.stmt s).IsDiscreet)
    (hhandler : ∀ b ∈ handler, ∀ s ∈ b, (Node.stmt s).IsDiscreet)
    (hfinalizer : ∀ b ∈ finalizer, ∀ s ∈ b, (Node.stmt s).IsDiscreet) :
    (guarded block param handler finalizer scope).Pairs D.pairing
      (guarded block param handler finalizer scope') (Completion.Twin D.relocation) := by
  refine Pairs.bind (pairs_act (pairs_newScope hs .empty)) fun inner inner' hinner => ?_
  refine (pairs_attemptBody hblock hinner).bind fun r r' hr => ?_
  exact (pairs_handled hs hr param hhandler).bind fun r r' hr => pairs_finalized hs hr hfinalizer

theorem pairs_ofStmt (turns : Nat) {s : Stmt} (h : (Node.stmt s).IsDiscreet) :
    (ofStmt turns scope s).Pairs D.pairing (ofStmt turns scope' s)
      (Completion.Twin D.relocation) := by
  have hexpr (e : Expr) (he : .expr e ∈ s.parts) : (Node.expr e).IsDiscreet := h.part he
  have hstmt (s' : Stmt) (hs' : .stmt s' ∈ s.parts) : (Node.stmt s').IsDiscreet := h.part hs'
  have htruth (e : Expr) (he : .expr e ∈ s.parts) {scope scope' : Scope}
      (hs : Scope.Twin D.relocation scope scope') :
      (do return (← value e scope).truthy : Plan Bool).Pairs D.pairing
        (do return (← value e scope').truthy : Plan Bool) Eq :=
    (pairs_value (hexpr e he) hs).bind fun _ _ hv => hv.truthy_eq
  cases s with
  | declaration kind ds =>
    refine (pairs_declarations hs fun d hd e he => hexpr e ?_).bind fun _ _ _ => .normal
    exact List.mem_flatMap.mpr ⟨d, hd, by rw [he]; exact List.mem_singleton_self _⟩
  | function | empty => exact .normal
  | expression e =>
    exact (pairs_value (hexpr e (by simp [Stmt.parts])) hs).bind fun _ _ _ => .normal
  | «if» condition consequent alternate =>
    refine (pairs_value (hexpr condition (by simp [Stmt.parts])) hs).bind fun v v' hv => ?_
    rw [hv.truthy_eq]
    split
    · exact pairs_statement (hstmt consequent (by simp [Stmt.parts])) hs
    · cases alternate with
      | none => exact .normal
      | some s' => exact pairs_statement (hstmt s' (by simp [Stmt.parts])) hs
  | «while» condition turn =>
    have hupdate : (pure () : Plan Unit).Pairs D.pairing (pure ()) fun _ _ => True := trivial
    exact pairs_loop (htruth condition (by simp [Stmt.parts]) hs)
      (pairs_statement (hstmt turn (by simp [Stmt.parts])) hs) hupdate turns
  | «for» init condition update turn =>
    refine Pairs.bind (pairs_act (pairs_newScope hs .empty)) fun inner inner' hinner => ?_
    have hturn := pairs_statement (hstmt turn (by simp [Stmt.parts])) hinner
    rcases init with _ | s'
    case' some =>
      refine (pairs_statement (hstmt s' (by simp [Stmt.parts])) hinner).bind fun _ _ _ => ?_
    all_goals
      refine pairs_loop ?_ hturn ?_ turns
      · cases condition with
        | none => exact rfl
        | some e => exact htruth e (by simp [Stmt.parts]) hinner
      · cases update with
        | none => trivial
        | some e =>
          exact (pairs_value (hexpr e (by simp [Stmt.parts])) hinner).bind fun _ _ _ => trivial
  | block statements => exact pairs_inNewScope hs fun s hs => hstmt s (List.mem_map_of_mem hs)
  | «return» e =>
    cases e with
    | none => exact .return .undefined
    | some e =>
      exact (pairs_value (hexpr e (by simp [Stmt.parts])) hs).bind fun _ _ hv => .return hv
  | throw e =>
    exact (pairs_value (hexpr e (by simp [Stmt.parts])) hs).bind fun _ _ hv =>
      pairs_stop (.thrown hv)
  | «break» => exact .break
  | «continue» => exact .continue
  | «try» block param handler finalizer =>
    refine pairs_guarded hs param (fun s hs => hstmt s (by simp_all [Stmt.parts])) ?_ ?_
    · rintro b rfl s hs
      exact hstmt s (by simp_all [Stmt.parts])
    · rintro b rfl s hs
      exact hstmt s (by simp_all [Stmt.parts])

/-! ### Calls -/

omit hs

theorem twin_callFrame {k : Relocation} {this this' : Value} (hthis : this.Twin k this')
    (params : List String) {args args' : List Value}
    (hargs : List.Forall₂ (Value.Twin k) args args') :
    Frame.Twin k (callFrame this params args) (callFrame this' params args') := by
  have hgo {f f' : Frame} (hf : Frame.Twin k f f') :
      Frame.Twin k (callFrame.go f params args) (callFrame.go f' params args') := by
    induction params generalizing f f' args args' with
    | nil => exact hf
    | cons name rest ih =>
      cases hargs with
      | nil => exact ih .nil (hf.insert name .undefined true)
      | cons hv hrest => exact ih hrest (hf.insert name hv true)
  exact hgo (Frame.Twin.empty.insert "this" hthis false)

theorem run_callFunction {m : Machine} {perform : (t : Task) → Run t.Result} (f : FunctionId)
    (this : Value) (args : List Value) (h : m.depth < m.maxDepth) :
    m.run ((callFunction f this args).carryOut perform) =
      (calling f this args m).run
        ((attempt (.body (m.heap.closure f).literal.body
          (m.heap.frames.size :: (m.heap.closure f).scope)) afterBody).carryOut perform) := by
  rw [run_carryOut, advance_callFunction f this args h, run_carryOut]
  rfl

theorem pairs_afterBody {r r' : Except Exception Completion}
    (hr : D.pairing.Results (Completion.Twin D.relocation) r r') :
    (afterBody r).Pairs D.pairing (afterBody r') (Value.Twin D.relocation) :=
  Pairs.bind (pairs_act pairs_leave) fun _ _ _ =>
    Pairs.bind (pairs_act (pairs_resume hr)) fun _ _ hc => hc.value

/-- Functions that are twins, called in frames that are, end alike. The arguments need not be twins,
for a parameter may have the name of something shared. -/
theorem ends_callFunction {n : Nat} (hn : D.pairing.Performs n) {m m' : Machine}
    (hm : D.Holds m m') {f f' : FunctionId} (hf : D.relocation.functions.Twin f f')
    {this this' : Value} {args args' : List Value}
    (hframe : Frame.Twin D.relocation (callFrame this (m.heap.closure f).literal.params args)
      (callFrame this' (m.heap.closure f).literal.params args')) :
    D.pairing.Ends (Value.Twin D.relocation)
      (m.run ((callFunction f this args).carryOut (perform n)))
      (m'.run ((callFunction f' this' args').carryOut (perform n))) := by
  have hc := hm.heap.closure hf
  by_cases hdepth : m.depth < m.maxDepth
  · have hdepth' : m'.depth < m'.maxDepth := by rwa [← hm.depth, ← hm.maxDepth]
    rw [run_callFunction f this args hdepth, run_callFunction f' this' args' hdepth', ← hc.literal]
    have hcalling : D.Holds (calling f this args m) (calling f' this' args' m') :=
      { heap := hm.heap.newFrame (hc.literal ▸ hframe)
        depth := congrArg (· + 1) hm.depth
        maxDepth := hm.maxDepth
        loader := hm.loader
        output := hm.output }
    have hbody : (attempt (.body (m.heap.closure f).literal.body
          (m.heap.frames.size :: (m.heap.closure f).scope)) afterBody : Plan Value).Pairs D.pairing
        (attempt (.body (m.heap.closure f).literal.body
          (m'.heap.frames.size :: (m'.heap.closure f').scope)) afterBody)
        (Value.Twin D.relocation) :=
      ⟨.body hc.discreet (.cons hm.heap.frames.next hc.scope), fun _ _ hr => pairs_afterBody hr⟩
    exact hbody.carryOut hn _ _ hcalling
  · have htooDeep := Nat.not_lt.mp hdepth
    have htooDeep' : m'.maxDepth ≤ m'.depth := by rwa [← hm.depth, ← hm.maxDepth]
    rw [run_carryOut, run_carryOut, advance_callFunction_tooDeep f this args htooDeep,
      advance_callFunction_tooDeep f' this' args' htooDeep', ← run_carryOut, ← run_carryOut]
    exact (Pairs.carryOut (pairs_act (pairs_raise _ _)) hn) _ _ hm

theorem pairs_ofCall {n : Nat} (hn : D.pairing.Performs n) {f f' this this' : Value}
    {args args' : List Value} (hf : f.Twin D.relocation f') (hthis : this.Twin D.relocation this')
    (hargs : List.Forall₂ (Value.Twin D.relocation) args args') :
    ((ofCall f this args).carryOut (perform n)).Pairs D.pairing
      ((ofCall f' this' args').carryOut (perform n)) (Value.Twin D.relocation) := by
  have hraise (name message : String) :
      ((act (Run.raise name message) done : Plan Value).carryOut (perform n)).Pairs D.pairing
        ((act (Run.raise name message) done : Plan Value).carryOut (perform n))
        (Value.Twin D.relocation) := Pairs.carryOut (pairs_act (pairs_raise name message)) hn
  cases hf with
  | function hi =>
    exact fun m m' hm => ends_callFunction hn hm hi (twin_callFrame hthis _ hargs)
  | @native key native h =>
    have hcall : ofCall (.native native) = fun this args =>
        act (Builtin.call native this args) done := by
      cases native with
      | require home =>
        unfold arrayFunction? at h
        split at h <;> cases h
      | _ => rfl
    rw [hcall]
    exact Pairs.carryOut (pairs_act (Builtin.pairs_call h hthis hargs)) hn
  | _ => exact hraise _ _

end Plan

/-- Tasks of a script that are twins end alike. -/
theorem Doubling.performs (D : Doubling) (n : Nat) : D.pairing.Performs n := by
  refine Pairing.performs (fun n hn t t' ht => ?_) n
  cases ht with
  | value he hs => exact (Plan.pairs_ofExpr hs he).carryOut hn
  | place he hs => exact (Plan.pairs_ofTarget hs he).carryOut hn
  | method he hs => exact (Plan.pairs_ofCallee hs he).carryOut hn
  | statement h hs => exact (Plan.pairs_ofStmt hs n h).carryOut hn
  | body h hs => exact (Plan.pairs_ofBody hs h).carryOut hn
  | call hf hthis hargs => exact Plan.pairs_ofCall hn hf hthis hargs

end ModuleLoader
