import ModuleLoader.Proofs.Nodes

/-! Trees with their spans mapped. Two trees that were read off different tokens are compared in
whatever of a span is not mapped away. -/
namespace ModuleLoader.Script

mutual

def Expr.mapSpan (f : Span → Span) : Expr → Expr
  | .number x s => .number x (f s)
  | .string text s => .string text (f s)
  | .bool b s => .bool b (f s)
  | .null s => .null (f s)
  | .identifier name s => .identifier name (f s)
  | .this s => .this (f s)
  | .array items s => .array (items.map fun e => e.mapSpan f) (f s)
  | .object properties s => .object (properties.map fun p => (p.1, p.2.mapSpan f)) (f s)
  | .function literal => .function (literal.mapSpan f)
  | .unary op e s => .unary op (e.mapSpan f) (f s)
  | .binary op e e' s => .binary op (e.mapSpan f) (e'.mapSpan f) (f s)
  | .logical op e e' s => .logical op (e.mapSpan f) (e'.mapSpan f) (f s)
  | .conditional e e' e'' s => .conditional (e.mapSpan f) (e'.mapSpan f) (e''.mapSpan f) (f s)
  | .assign op target e s => .assign op (target.mapSpan f) (e.mapSpan f) (f s)
  | .update step side target s => .update step side (target.mapSpan f) (f s)
  | .call e arguments s => .call (e.mapSpan f) (arguments.map fun e => e.mapSpan f) (f s)
  | .member e name s => .member (e.mapSpan f) name (f s)
  | .index e e' s => .index (e.mapSpan f) (e'.mapSpan f) (f s)
termination_by e => sizeOf e
decreasing_by
  all_goals first
    | decreasing_tactic
    | (have hp := sizeOf_snd_lt ‹_ ∈ _›
       simp only [Expr.object.sizeOf_spec]
       omega)

def FunctionDef.mapSpan (f : Span → Span) : FunctionDef → FunctionDef
  | .mk name params body s => .mk name params (body.map fun s => s.mapSpan f) (f s)
termination_by literal => sizeOf literal

def Stmt.mapSpan (f : Span → Span) : Stmt → Stmt
  | .declaration kind ds s =>
    .declaration kind (ds.map fun d => (d.1,
      match _ : d.2 with
      | none => none
      | some e => some (e.mapSpan f))) (f s)
  | .function literal => .function (literal.mapSpan f)
  | .expression e => .expression (e.mapSpan f)
  | .«if» e s s' span =>
    .«if» (e.mapSpan f) (s.mapSpan f)
      (match s' with
        | none => none
        | some s => some (s.mapSpan f)) (f span)
  | .«while» e s span => .«while» (e.mapSpan f) (s.mapSpan f) (f span)
  | .«for» init e e' s span =>
    .«for»
      (match init with
        | none => none
        | some s => some (s.mapSpan f))
      (match e with
        | none => none
        | some e => some (e.mapSpan f))
      (match e' with
        | none => none
        | some e => some (e.mapSpan f)) (s.mapSpan f) (f span)
  | .block body span => .block (body.map fun s => s.mapSpan f) (f span)
  | .«return» e span =>
    .«return»
      (match e with
        | none => none
        | some e => some (e.mapSpan f)) (f span)
  | .throw e span => .throw (e.mapSpan f) (f span)
  | .«break» span => .«break» (f span)
  | .«continue» span => .«continue» (f span)
  | .«try» body param handler finalizer span =>
    .«try» (body.map fun s => s.mapSpan f) param
      (match handler with
        | none => none
        | some body => some (body.map fun s => s.mapSpan f))
      (match finalizer with
        | none => none
        | some body => some (body.map fun s => s.mapSpan f)) (f span)
  | .empty span => .empty (f span)
termination_by s => sizeOf s
decreasing_by
  all_goals first
    | decreasing_tactic
    | exact Stmt.sizeOf_lt_declaration ‹_ ∈ _› ‹_›

end

def Program.mapSpan (f : Span → Span) (p : Program) : Program :=
  ⟨p.statements.map (Stmt.mapSpan f), f p.span⟩

variable (f : Span → Span)

namespace Stmt

theorem mapSpan_declaration (kind : DeclarationWord) (ds : List (String × Option Expr))
    (span : Span) : (declaration kind ds span).mapSpan f =
      .declaration kind (ds.map fun d => (d.1, d.2.map (Expr.mapSpan f))) (f span) := by
  rw [mapSpan]
  congr
  funext ⟨name, init⟩
  cases init <;> rfl

theorem mapSpan_if (e : Expr) (s : Stmt) (s' : Option Stmt) (span : Span) :
    («if» e s s' span).mapSpan f =
      .«if» (e.mapSpan f) (s.mapSpan f) (s'.map (mapSpan f)) (f span) := by
  cases s' <;> rw [mapSpan] <;> rfl

theorem mapSpan_for (init : Option Stmt) (e e' : Option Expr) (s : Stmt) (span : Span) :
    («for» init e e' s span).mapSpan f =
      .«for» (init.map (mapSpan f)) (e.map (Expr.mapSpan f)) (e'.map (Expr.mapSpan f))
        (s.mapSpan f) (f span) := by
  cases init <;> cases e <;> cases e' <;> rw [mapSpan] <;> rfl

theorem mapSpan_return (e : Option Expr) (span : Span) :
    («return» e span).mapSpan f = .«return» (e.map (Expr.mapSpan f)) (f span) := by
  cases e <;> rw [mapSpan] <;> rfl

theorem mapSpan_try (body : List Stmt) (param : Option String)
    (handler finalizer : Option (List Stmt)) (span : Span) :
    («try» body param handler finalizer span).mapSpan f =
      .«try» (body.map (mapSpan f)) param (handler.map (List.map (mapSpan f)))
        (finalizer.map (List.map (mapSpan f))) (f span) := by
  cases handler <;> cases finalizer <;> rw [mapSpan] <;> rfl

end Stmt

/-! ### What is mapped and what is not -/

theorem FunctionDef.span_mapSpan (literal : FunctionDef) :
    (literal.mapSpan f).span = f literal.span := by
  cases literal
  rw [mapSpan]
  rfl

theorem Expr.span_mapSpan (e : Expr) : (e.mapSpan f).span = f e.span := by
  cases e with
  | function literal =>
    rw [mapSpan]
    exact literal.span_mapSpan f
  | _ =>
    rw [mapSpan]
    rfl

theorem Expr.isTarget_mapSpan (e : Expr) : (e.mapSpan f).isTarget = e.isTarget := by
  cases e <;> rw [mapSpan] <;> rfl

theorem Stmt.span_mapSpan (s : Stmt) : (s.mapSpan f).span = f s.span := by
  cases s with
  | declaration => rw [mapSpan_declaration]; rfl
  | «if» => rw [mapSpan_if]; rfl
  | «for» => rw [mapSpan_for]; rfl
  | «return» => rw [mapSpan_return]; rfl
  | «try» => rw [mapSpan_try]; rfl
  | function literal =>
    rw [mapSpan]
    exact literal.span_mapSpan f
  | expression e =>
    rw [mapSpan]
    exact e.span_mapSpan f
  | _ =>
    rw [mapSpan]
    rfl

variable {f}

theorem Expr.place_eq {e e' : Expr} (h : e.mapSpan f = e'.mapSpan f) : f e.span = f e'.span := by
  rw [← e.span_mapSpan f, h, span_mapSpan]

theorem Stmt.place_eq {s s' : Stmt} (h : s.mapSpan f = s'.mapSpan f) : f s.span = f s'.span := by
  rw [← s.span_mapSpan f, h, span_mapSpan]

theorem Expr.isTarget_eq {e e' : Expr} (h : e.mapSpan f = e'.mapSpan f) :
    e.isTarget = e'.isTarget := by
  rw [← isTarget_mapSpan f, h, isTarget_mapSpan]

variable (f)

/-! ### Trees without places, and trees as they are -/

def Node.mapSpan : Node → Node
  | expr e => expr (e.mapSpan f)
  | stmt s => stmt (s.mapSpan f)

def Node.bare : Node → Node
  | expr e => expr e.bare
  | stmt s => stmt s.bare

theorem Expr.bare_mapSpan_of_parts {e : Expr} (h : ∀ y ∈ e.parts, (y.mapSpan f).bare = y.bare) :
    (e.mapSpan f).bare = e.bare := by
  have hexprs (e' : Expr) (he' : .expr e' ∈ e.parts) : (e'.mapSpan f).bare = e'.bare :=
    Node.expr.inj (h (.expr e') he')
  have hstmts (s : Stmt) (hs : .stmt s ∈ e.parts) : (s.mapSpan f).bare = s.bare :=
    Node.stmt.inj (h (.stmt s) hs)
  clear h
  cases e with
  | function literal =>
    obtain ⟨name, params, body, span⟩ := literal
    simp_all [mapSpan, bare, FunctionDef.mapSpan, FunctionDef.bare, parts]
  | object properties span =>
    simp only [mapSpan, bare, List.map_map]
    congr 1
    refine List.map_congr_left fun p hp => Prod.ext rfl ?_
    exact hexprs p.2 (List.mem_map_of_mem hp)
  | _ => simp_all [mapSpan, bare, parts]

theorem Stmt.bare_mapSpan_of_parts {s : Stmt} (h : ∀ y ∈ s.parts, (y.mapSpan f).bare = y.bare) :
    (s.mapSpan f).bare = s.bare := by
  have hexprs (e : Expr) (he : .expr e ∈ s.parts) : (e.mapSpan f).bare = e.bare :=
    Node.expr.inj (h (.expr e) he)
  have hstmts (s' : Stmt) (hs' : .stmt s' ∈ s.parts) : (s'.mapSpan f).bare = s'.bare :=
    Node.stmt.inj (h (.stmt s') hs')
  clear h
  cases s with
  | declaration kind ds span =>
    rw [mapSpan_declaration, bare_declaration, bare_declaration, List.map_map]
    congr 1
    refine List.map_congr_left fun d hd => Prod.ext rfl ?_
    simp only [Function.comp_apply, Option.map_map]
    refine Option.map_congr fun e he => hexprs e (List.mem_flatMap.mpr ⟨d, hd, ?_⟩)
    simp [he]
  | function literal =>
    obtain ⟨name, params, body, span⟩ := literal
    simp_all [mapSpan, bare, FunctionDef.mapSpan, FunctionDef.bare, parts]
  | «if» e s s' span => cases s' <;> simp_all [mapSpan_if, bare_if, parts]
  | «for» init e e' s span =>
    cases init <;> cases e <;> cases e' <;> simp_all [mapSpan_for, bare_for, parts]
  | «return» e span => cases e <;> simp_all [mapSpan_return, bare_return, parts]
  | «try» body param handler finalizer span =>
    cases handler <;> cases finalizer <;> simp_all [mapSpan_try, bare_try, parts]
  | _ => simp_all [mapSpan, bare, parts]

theorem Node.bare_mapSpan (x : Node) : (x.mapSpan f).bare = x.bare := by
  refine induction (motive := fun x => (x.mapSpan f).bare = x.bare) ?_ x
  intro x ih
  cases x with
  | expr e => exact congrArg expr (Expr.bare_mapSpan_of_parts f ih)
  | stmt s => exact congrArg stmt (Stmt.bare_mapSpan_of_parts f ih)

theorem map_eq_self {α : Type} {g : α → α} {l : List α} (h : ∀ a ∈ l, g a = a) : l.map g = l :=
  (List.map_congr_left h).trans (List.map_id' l)

theorem Expr.mapSpan_id_of_parts {e : Expr} (h : ∀ y ∈ e.parts, y.mapSpan id = y) :
    e.mapSpan id = e := by
  have hexprs (e' : Expr) (he' : .expr e' ∈ e.parts) : e'.mapSpan id = e' :=
    Node.expr.inj (h (.expr e') he')
  have hstmts (s : Stmt) (hs : .stmt s ∈ e.parts) : s.mapSpan id = s :=
    Node.stmt.inj (h (.stmt s) hs)
  clear h
  cases e with
  | object properties span =>
    have hproperties : properties.map (fun p => (p.1, p.2.mapSpan id)) = properties :=
      map_eq_self fun p hp => Prod.ext rfl (hexprs p.2 (List.mem_map_of_mem hp))
    rw [mapSpan, hproperties, id]
  | function literal =>
    obtain ⟨name, params, body, span⟩ := literal
    simp_all [mapSpan, FunctionDef.mapSpan, parts, map_eq_self]
  | _ => simp_all [mapSpan, parts, map_eq_self]

theorem Stmt.mapSpan_id_of_parts {s : Stmt} (h : ∀ y ∈ s.parts, y.mapSpan id = y) :
    s.mapSpan id = s := by
  have hexprs (e : Expr) (he : .expr e ∈ s.parts) : e.mapSpan id = e :=
    Node.expr.inj (h (.expr e) he)
  have hstmts (s' : Stmt) (hs' : .stmt s' ∈ s.parts) : s'.mapSpan id = s' :=
    Node.stmt.inj (h (.stmt s') hs')
  clear h
  cases s with
  | declaration kind ds span =>
    rw [mapSpan_declaration, map_eq_self, id]
    rintro ⟨name, init⟩ hd
    cases init with
    | none => rfl
    | some e => rw [Option.map_some, hexprs e (by simp [parts]; exact ⟨name, hd⟩)]
  | function literal =>
    obtain ⟨name, params, body, span⟩ := literal
    simp_all [mapSpan, FunctionDef.mapSpan, parts, map_eq_self]
  | «if» e s s' span => cases s' <;> simp_all [mapSpan_if, parts]
  | «for» init e e' s span =>
    cases init <;> cases e <;> cases e' <;> simp_all [mapSpan_for, parts]
  | «return» e span => cases e <;> simp_all [mapSpan_return, parts]
  | «try» body param handler finalizer span =>
    cases handler <;> cases finalizer <;> simp_all [mapSpan_try, parts, map_eq_self]
  | _ => simp_all [mapSpan, parts, map_eq_self]

theorem Node.mapSpan_id (x : Node) : x.mapSpan id = x := by
  refine induction (motive := fun x => x.mapSpan id = x) ?_ x
  intro x ih
  cases x with
  | expr e => exact congrArg expr (Expr.mapSpan_id_of_parts ih)
  | stmt s => exact congrArg stmt (Stmt.mapSpan_id_of_parts ih)

theorem Stmt.bare_mapSpan (s : Stmt) : (s.mapSpan f).bare = s.bare :=
  Node.stmt.inj (Node.bare_mapSpan f (.stmt s))

theorem Program.mapSpan_id (p : Program) : p.mapSpan id = p := by
  obtain ⟨statements, span⟩ := p
  rw [mapSpan, map_eq_self fun s _ => Node.stmt.inj (Node.mapSpan_id (.stmt s)), id]

end ModuleLoader.Script
