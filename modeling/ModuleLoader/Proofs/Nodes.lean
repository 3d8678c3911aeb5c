import Mathlib.Logic.Relation
import ModuleLoader.Proofs.Grammar

/-! Trees of scripts as nodes and their parts. The body of a function belongs to the literal that it
is written in. -/
namespace ModuleLoader.Script

inductive Node where
  | expr (e : Expr)
  | stmt (s : Stmt)

/-- The expressions and statements that an expression is immediately made of. -/
def Expr.parts : Expr → List Node
  | number _ _ | string _ _ | bool _ _ | null _ | identifier _ _ | this _ => []
  | array items _ => items.map .expr
  | object properties _ => properties.map fun p => .expr p.2
  | function (.mk _ _ body _) => body.map .stmt
  | unary _ e _ | update _ _ e _ | member e _ _ => [.expr e]
  | binary _ e e' _ | logical _ e e' _ | assign _ e e' _ | index e e' _ => [.expr e, .expr e']
  | conditional e e' e'' _ => [.expr e, .expr e', .expr e'']
  | call e arguments _ => .expr e :: arguments.map .expr

def Stmt.parts : Stmt → List Node
  | declaration _ ds _ => ds.flatMap fun d => (d.2.map .expr).toList
  | function (.mk _ _ body _) | .block body _ => body.map .stmt
  | expression e | throw e _ => [.expr e]
  | «if» e s s' _ => .expr e :: .stmt s :: (s'.map .stmt).toList
  | «while» e s _ => [.expr e, .stmt s]
  | «for» init e e' s _ =>
    (init.map .stmt).toList ++ (e.map .expr).toList ++ (e'.map .expr).toList ++ [.stmt s]
  | «return» e _ => (e.map .expr).toList
  | «break» _ | «continue» _ | empty _ => []
  | «try» body _ handler finalizer _ =>
    body.map .stmt ++ (handler.getD []).map .stmt ++ (finalizer.getD []).map .stmt

def Node.parts : Node → List Node
  | expr e => e.parts
  | stmt s => s.parts

/-! ### Parts are smaller -/

theorem sizeOf_snd_lt {α β : Type} [SizeOf α] [SizeOf β] {p : α × β} {ps : List (α × β)}
    (h : p ∈ ps) : sizeOf p.2 < sizeOf ps := by
  have hp := List.sizeOf_lt_of_mem h
  obtain ⟨a, b⟩ := p
  simp only [Prod.mk.sizeOf_spec] at hp ⊢
  omega

theorem sizeOf_lt_of_mem_getD {α : Type} [SizeOf α] {a : α} {xs : Option (List α)}
    (h : a ∈ xs.getD []) : sizeOf a < sizeOf xs := by
  cases xs with
  | none => cases h
  | some xs =>
    have ha : sizeOf a < sizeOf xs := List.sizeOf_lt_of_mem h
    simp only [Option.some.sizeOf_spec]
    omega

theorem Expr.sizeOf_lt_of_mem_parts {e : Expr} {y : Node} (h : y ∈ e.parts) :
    sizeOf y < sizeOf (Node.expr e) := by
  cases e with
  | array items span =>
    obtain ⟨e, he, rfl⟩ := List.mem_map.mp h
    have := List.sizeOf_lt_of_mem he
    simp only [Node.expr.sizeOf_spec, array.sizeOf_spec]
    omega
  | object properties span =>
    obtain ⟨p, hp, rfl⟩ := List.mem_map.mp h
    have := sizeOf_snd_lt hp
    simp only [Node.expr.sizeOf_spec, object.sizeOf_spec]
    omega
  | function literal =>
    obtain ⟨name, params, body, span⟩ := literal
    obtain ⟨s, hs, rfl⟩ := List.mem_map.mp h
    have := List.sizeOf_lt_of_mem hs
    simp only [Node.expr.sizeOf_spec, Node.stmt.sizeOf_spec, function.sizeOf_spec,
      FunctionDef.mk.sizeOf_spec]
    omega
  | call callee arguments span =>
    obtain rfl | h := List.mem_cons.mp h
    · simp only [Node.expr.sizeOf_spec, call.sizeOf_spec]
      omega
    · obtain ⟨e, he, rfl⟩ := List.mem_map.mp h
      have := List.sizeOf_lt_of_mem he
      simp only [Node.expr.sizeOf_spec, call.sizeOf_spec]
      omega
  | number | string | bool | null | identifier | this => cases h
  | _ =>
    simp only [parts, List.mem_cons, List.not_mem_nil, or_false] at h
    obtain rfl | rfl | rfl := h
    all_goals
      simp only [Node.expr.sizeOf_spec, unary.sizeOf_spec, binary.sizeOf_spec,
        logical.sizeOf_spec, conditional.sizeOf_spec, assign.sizeOf_spec, update.sizeOf_spec,
        member.sizeOf_spec, index.sizeOf_spec]
      omega

theorem Stmt.sizeOf_lt_of_mem_parts {s : Stmt} {y : Node} (h : y ∈ s.parts) :
    sizeOf y < sizeOf (Node.stmt s) := by
  cases s with
  | declaration kind ds span =>
    obtain ⟨⟨name, init⟩, hd, hy⟩ := List.mem_flatMap.mp h
    cases init with
    | none => cases hy
    | some e =>
      obtain rfl : y = .expr e := List.mem_singleton.mp hy
      have := sizeOf_snd_lt hd
      simp only [Node.expr.sizeOf_spec, Node.stmt.sizeOf_spec, declaration.sizeOf_spec,
        Option.some.sizeOf_spec] at this ⊢
      omega
  | function literal =>
    obtain ⟨name, params, body, span⟩ := literal
    obtain ⟨s, hs, rfl⟩ := List.mem_map.mp h
    have := List.sizeOf_lt_of_mem hs
    simp only [Node.stmt.sizeOf_spec, function.sizeOf_spec, FunctionDef.mk.sizeOf_spec]
    omega
  | block body span =>
    obtain ⟨s, hs, rfl⟩ := List.mem_map.mp h
    have := List.sizeOf_lt_of_mem hs
    simp only [Node.stmt.sizeOf_spec, block.sizeOf_spec]
    omega
  | «try» body param handler finalizer span =>
    simp only [parts, List.mem_append, List.mem_map] at h
    simp only [Node.stmt.sizeOf_spec, «try».sizeOf_spec]
    obtain (⟨s, hs, rfl⟩ | ⟨s, hs, rfl⟩) | ⟨s, hs, rfl⟩ := h
    · have := List.sizeOf_lt_of_mem hs
      simp only [Node.stmt.sizeOf_spec]
      omega
    · have := sizeOf_lt_of_mem_getD hs
      simp only [Node.stmt.sizeOf_spec]
      omega
    · have := sizeOf_lt_of_mem_getD hs
      simp only [Node.stmt.sizeOf_spec]
      omega
  | «if» e s s' span =>
    cases s' <;> simp only [parts, Option.map_none, Option.map_some, Option.toList, List.mem_cons,
      List.not_mem_nil, or_false] at h
    case' none => obtain rfl | rfl := h
    case' some => obtain rfl | rfl | rfl := h
    all_goals
      simp only [Node.expr.sizeOf_spec, Node.stmt.sizeOf_spec, «if».sizeOf_spec,
        Option.some.sizeOf_spec]
      omega
  | «for» init e e' s span =>
    simp only [parts, List.mem_append, Option.mem_toList, Option.map_eq_some_iff,
      List.mem_singleton] at h
    obtain ((⟨s', rfl, rfl⟩ | ⟨e, rfl, rfl⟩) | ⟨e, rfl, rfl⟩) | rfl := h
    all_goals
      simp only [Node.expr.sizeOf_spec, Node.stmt.sizeOf_spec, «for».sizeOf_spec,
        Option.some.sizeOf_spec]
      omega
  | «return» e span =>
    cases e with
    | none => cases h
    | some e =>
      obtain rfl : y = .expr e := List.mem_singleton.mp h
      simp only [Node.expr.sizeOf_spec, Node.stmt.sizeOf_spec, «return».sizeOf_spec,
        Option.some.sizeOf_spec]
      omega
  | «break» | «continue» | empty => cases h
  | _ =>
    simp only [parts, List.mem_cons, List.not_mem_nil, or_false] at h
    obtain rfl | rfl := h
    all_goals
      simp only [Node.expr.sizeOf_spec, Node.stmt.sizeOf_spec, expression.sizeOf_spec,
        throw.sizeOf_spec, «while».sizeOf_spec]
      omega

namespace Node

theorem sizeOf_lt_of_mem_parts {x y : Node} (h : y ∈ x.parts) : sizeOf y < sizeOf x := by
  cases x with
  | expr e => exact Expr.sizeOf_lt_of_mem_parts h
  | stmt s => exact Stmt.sizeOf_lt_of_mem_parts h

/-- What holds of a node if it holds of its parts holds of all nodes. -/
theorem induction {motive : Node → Prop} (h : ∀ x : Node, (∀ y ∈ x.parts, motive y) → motive x)
    (x : Node) : motive x :=
  h x fun y _ => induction h y
termination_by sizeOf x
decreasing_by exact sizeOf_lt_of_mem_parts ‹_›

/-- The node is the other, or a part of it, or a part of a part, and so on. -/
def Within (y x : Node) : Prop :=
  Relation.ReflTransGen (fun a b => b ∈ a.parts) x y

/-- Every node within this one is so, itself among them. -/
def Everywhere (P : Node → Prop) (x : Node) : Prop :=
  ∀ y, y.Within x → P y

theorem Everywhere.within {P : Node → Prop} {x y : Node} (h : x.Everywhere P) (hy : y.Within x) :
    y.Everywhere P :=
  fun z hz => h z (.trans hy hz)

theorem everywhere_iff {P : Node → Prop} {x : Node} :
    x.Everywhere P ↔ P x ∧ ∀ y ∈ x.parts, y.Everywhere P := by
  constructor
  · exact fun h => ⟨h x .refl, fun y hy z hz => h z (.head hy hz)⟩
  · rintro ⟨hx, hparts⟩ z hz
    obtain rfl | ⟨y, hy, hyz⟩ := Relation.ReflTransGen.cases_head hz
    · exact hx
    · exact hparts y hy z hyz

instance decidableEverywhere (P : Node → Prop) [DecidablePred P] (x : Node) :
    Decidable (x.Everywhere P) :=
  have : ∀ y : {y // y ∈ x.parts}, Decidable (y.1.Everywhere P) := fun y =>
    decidableEverywhere P y.1
  decidable_of_iff (P x ∧ ∀ y ∈ x.parts.attach, y.1.Everywhere P) (by
    rw [everywhere_iff]
    exact and_congr_right' ⟨fun h y hy => h ⟨y, hy⟩ (List.mem_attach _ _), fun h y _ => h y.1 y.2⟩)
termination_by sizeOf x
decreasing_by exact sizeOf_lt_of_mem_parts y.2

end Node

/-! ### Trees without places -/

theorem Stmt.sizeOf_lt_declaration {d : String × Option Expr} {ds : List (String × Option Expr)}
    {e : Expr} (hd : d ∈ ds) (he : d.2 = some e) {kind : DeclarationWord} {span : Span} :
    sizeOf e < sizeOf (Stmt.declaration kind ds span) := by
  have := sizeOf_snd_lt hd
  simp only [he, Option.some.sizeOf_spec, declaration.sizeOf_spec] at this ⊢
  omega

mutual

/-- The tree of an expression, wherever it was read. -/
def Expr.bare : Expr → Expr
  | .number x _ => .number x default
  | .string text _ => .string text default
  | .bool b _ => .bool b default
  | .null _ => .null default
  | .identifier name _ => .identifier name default
  | .this _ => .this default
  | .array items _ => .array (items.map fun e => e.bare) default
  | .object properties _ => .object (properties.map fun p => (p.1, p.2.bare)) default
  | .function literal => .function literal.bare
  | .unary op e _ => .unary op e.bare default
  | .binary op e e' _ => .binary op e.bare e'.bare default
  | .logical op e e' _ => .logical op e.bare e'.bare default
  | .conditional e e' e'' _ => .conditional e.bare e'.bare e''.bare default
  | .assign op target e _ => .assign op target.bare e.bare default
  | .update step side target _ => .update step side target.bare default
  | .call e arguments _ => .call e.bare (arguments.map fun e => e.bare) default
  | .member e name _ => .member e.bare name default
  | .index e e' _ => .index e.bare e'.bare default
termination_by e => sizeOf e
decreasing_by
  all_goals first
    | decreasing_tactic
    | (have hp := sizeOf_snd_lt ‹_ ∈ _›
       simp only [Expr.object.sizeOf_spec]
       omega)

def FunctionDef.bare : FunctionDef → FunctionDef
  | .mk name params body _ => .mk name params (body.map fun s => s.bare) default
termination_by f => sizeOf f

def Stmt.bare : Stmt → Stmt
  | .declaration kind ds _ =>
    .declaration kind (ds.map fun d => (d.1,
      match _ : d.2 with
      | none => none
      | some e => some e.bare)) default
  | .function literal => .function literal.bare
  | .expression e => .expression e.bare
  | .«if» e s s' _ =>
    .«if» e.bare s.bare
      (match s' with
        | none => none
        | some s => some s.bare) default
  | .«while» e s _ => .«while» e.bare s.bare default
  | .«for» init e e' s _ =>
    .«for»
      (match init with
        | none => none
        | some s => some s.bare)
      (match e with
        | none => none
        | some e => some e.bare)
      (match e' with
        | none => none
        | some e => some e.bare) s.bare default
  | .block body _ => .block (body.map fun s => s.bare) default
  | .«return» e _ =>
    .«return»
      (match e with
        | none => none
        | some e => some e.bare) default
  | .throw e _ => .throw e.bare default
  | .«break» _ => .«break» default
  | .«continue» _ => .«continue» default
  | .«try» body param handler finalizer _ =>
    .«try» (body.map fun s => s.bare) param
      (match handler with
        | none => none
        | some body => some (body.map fun s => s.bare))
      (match finalizer with
        | none => none
        | some body => some (body.map fun s => s.bare)) default
  | .empty _ => .empty default
termination_by s => sizeOf s
decreasing_by
  all_goals first
    | decreasing_tactic
    | exact Stmt.sizeOf_lt_declaration ‹_ ∈ _› ‹_›

end

namespace Stmt

theorem bare_declaration (kind : DeclarationWord) (ds : List (String × Option Expr)) (span : Span) :
    (declaration kind ds span).bare =
      .declaration kind (ds.map fun d => (d.1, d.2.map Expr.bare)) default := by
  rw [bare]
  congr
  funext ⟨name, init⟩
  cases init <;> rfl

theorem bare_if (e : Expr) (s : Stmt) (s' : Option Stmt) (span : Span) :
    («if» e s s' span).bare = .«if» e.bare s.bare (s'.map bare) default := by
  cases s' <;> rw [bare] <;> rfl

theorem bare_for (init : Option Stmt) (e e' : Option Expr) (s : Stmt) (span : Span) :
    («for» init e e' s span).bare =
      .«for» (init.map bare) (e.map Expr.bare) (e'.map Expr.bare) s.bare default := by
  cases init <;> cases e <;> cases e' <;> rw [bare] <;> rfl

theorem bare_return (e : Option Expr) (span : Span) :
    («return» e span).bare = .«return» (e.map Expr.bare) default := by
  cases e <;> rw [bare] <;> rfl

theorem bare_try (body : List Stmt) (param : Option String) (handler finalizer : Option (List Stmt))
    (span : Span) : («try» body param handler finalizer span).bare =
      .«try» (body.map bare) param (handler.map (List.map bare)) (finalizer.map (List.map bare))
        default := by
  cases handler <;> cases finalizer <;> rw [bare] <;> rfl

end Stmt

/-! ### Well-formed trees -/

/-- A loop exit in the statement is for a loop around it, not for one of its own. -/
inductive Stmt.Escapes : Stmt → Prop where
  | «break» {span : Span} : Escapes (.«break» span)
  | «continue» {span : Span} : Escapes (.«continue» span)
  | consequent {e : Expr} {s : Stmt} {s' : Option Stmt} {span : Span} (h : s.Escapes) :
      Escapes (.«if» e s s' span)
  | alternate {e : Expr} {s s' : Stmt} {span : Span} (h : s'.Escapes) :
      Escapes (.«if» e s (some s') span)
  | block {body : List Stmt} {s : Stmt} {span : Span} (hs : s ∈ body) (h : s.Escapes) :
      Escapes (.block body span)
  | guarded {body : List Stmt} {param : Option String} {handler finalizer : Option (List Stmt)}
      {s : Stmt} {span : Span} (hs : s ∈ body) (h : s.Escapes) :
      Escapes (.«try» body param handler finalizer span)
  | handler {body : List Stmt} {param : Option String} {handler : List Stmt}
      {finalizer : Option (List Stmt)} {s : Stmt} {span : Span} (hs : s ∈ handler)
      (h : s.Escapes) : Escapes (.«try» body param (some handler) finalizer span)
  | finalizer {body : List Stmt} {param : Option String} {handler : Option (List Stmt)}
      {finalizer : List Stmt} {s : Stmt} {span : Span} (hs : s ∈ finalizer) (h : s.Escapes) :
      Escapes (.«try» body param handler (some finalizer) span)

/-- The statement ends in an `if` that an `else` behind it would belong to. -/
def Stmt.dangles : Stmt → Bool
  | «if» _ _ none _ => true
  | «if» _ _ (some s) _ | «while» _ s _ | «for» _ _ _ s _ => s.dangles
  | _ => false

/-- The node is put together as the grammar allows: every target of an assignment or an update can
be assigned to, constants have values, an `else` belongs to the last `if` before it, a guarded
statement has a clause, and no loop exit leaves a function. -/
def Node.Formed : Node → Prop
  | expr (.assign op target _ _) => target.isTarget ∧ (assignMark? op).isSome
  | expr (.update _ _ target _) => target.isTarget
  | expr (.function literal) => ∀ s ∈ literal.body, ¬ s.Escapes
  | stmt (.function literal) => literal.name.isSome ∧ ∀ s ∈ literal.body, ¬ s.Escapes
  | stmt (.declaration kind ds _) => ds ≠ [] ∧ (kind = .«const» → ∀ d ∈ ds, d.2.isSome)
  | stmt (.«if» _ s s' _) => s'.isSome → s.dangles = false
  | stmt (.«for» init _ _ _ _) =>
    ∀ s ∈ init, (∃ e, s = .expression e) ∨ ∃ kind ds span, s = .declaration kind ds span
  | stmt (.«try» _ param handler finalizer _) =>
    (handler.isSome ∨ finalizer.isSome) ∧ (param.isSome → handler.isSome)
  | _ => True

end ModuleLoader.Script
