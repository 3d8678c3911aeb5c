import ModuleLoader.Proofs.RoundTrip

/-! How deep the trees of scripts are. The limit of nesting bounds them but for chains: operators of
one level nest as often as they follow one another, and so do calls and accesses. -/
namespace ModuleLoader.Script

namespace Node

/-- The one expression goes on from the other: with an operator of the same level, or with a call or
an access after another. -/
inductive Continues : Node → Node → Prop where
  | intro {e e' : Expr} (h : e.first? = some (e.level, e')) (hl : e'.level = e.level) :
      Continues (.expr e) (.expr e')

/-- There is a way down from the node through so many nodes, itself among them, and so many of its
steps undo a link of a chain. -/
inductive Descent : Node → Nat → Nat → Prop where
  | here (x : Node) : Descent x 1 0
  | link {x y : Node} {n k : Nat} (h : x.Continues y) (below : Descent y n k) :
      Descent x (n + 1) (k + 1)
  | step {x y : Node} {n k : Nat} (h : y ∈ x.parts) (hlink : ¬ x.Continues y)
      (below : Descent y n k) : Descent x (n + 1) k

variable {x y : Node} {n k : Nat}

theorem Descent.of_part (h : y ∈ x.parts) (below : y.Descent n k) : ∃ k', x.Descent (n + 1) k' := by
  by_cases hlink : x.Continues y
  · exact ⟨k + 1, .link hlink below⟩
  · exact ⟨k, .step h hlink below⟩

/-! ### What a step down costs -/

def nesting : Node → Nat
  | expr e => (e.layout false).nesting
  | stmt s => (s.layout false).nesting

/-- Orders the nodes that nest equally deep, in thirteen ranks. -/
def rank : Node → Nat
  | expr (.identifier _ _) => 0
  | expr e => e.level.ctorIdx + 1
  | stmt (.«for» _ _ _ _ _) => 1
  | stmt _ => 0

/-- More than the way down from a node costs, but for the links of chains. -/
def weight (x : Node) : Nat :=
  13 * x.nesting + x.rank

theorem rank_expr_le (e : Expr) : (expr e).rank ≤ e.level.ctorIdx + 1 := by
  cases e with
  | identifier => exact Nat.zero_le _
  | _ => exact Nat.le_refl _

theorem rank_lt (x : Node) : x.rank < 13 := by
  cases x with
  | expr e =>
    refine Nat.lt_of_le_of_lt (rank_expr_le e) ?_
    cases e.level <;> decide
  | stmt s =>
    cases s with
    | «for» => exact (by decide : 1 < 13)
    | _ => exact (by decide : 0 < 13)

theorem weight_lt_of_nesting (h : y.nesting < x.nesting) : y.weight < x.weight := by
  have hy := y.rank_lt
  unfold weight
  omega

end Node

theorem Stmt.nesting_layout (s : Stmt) :
    (s.layout false).nesting ≤ (s.layout true).nesting := by
  cases s with
  | expression e =>
    rw [layout, layout]
    simp only [Spelling.nesting_append, Spelling.nesting_nested, Spelling.nesting_semicolonIf]
    have he := e.nesting_layout_false true
    omega
  | declaration =>
    rw [layout_declaration, layout_declaration]
    simp only [Spelling.nesting_append, Spelling.nesting_semicolonIf, Nat.le_refl]
  | «return» =>
    rw [layout_return, layout_return]
    simp only [Spelling.nesting_append, Spelling.nesting_semicolonIf, Nat.le_refl]
  | throw | «break» | «continue» =>
    rw [layout, layout]
    simp only [Spelling.nesting_append, Spelling.nesting_semicolonIf, Nat.le_refl]
  | «if» => exact Nat.le_of_eq (by rw [layout_if, layout_if])
  | «for» => exact Nat.le_of_eq (by rw [layout_for, layout_for])
  | «try» => exact Nat.le_of_eq (by rw [layout_try, layout_try])
  | function | «while» | block | empty => exact Nat.le_of_eq (by rw [layout, layout])

/-- Statements in braces nest less than the braces. -/
theorem nesting_of_mem_block {body : List Stmt} {y : Node} (h : y ∈ body.map Node.stmt) :
    y.nesting < (blockLayout body).nesting := by
  obtain ⟨s, hs, rfl⟩ := List.mem_map.mp h
  refine Nat.lt_of_le_of_lt s.nesting_layout ?_
  exact Spelling.nesting_block_le.mp (Nat.le_refl _) _ (List.mem_map_of_mem hs)

theorem FunctionDef.nesting_body (literal : FunctionDef) {y : Node}
    (h : y ∈ literal.body.map Node.stmt) : y.nesting < literal.layout.nesting := by
  obtain ⟨name, params, body, span⟩ := literal
  rw [layout]
  exact Nat.lt_of_lt_of_le (nesting_of_mem_block h) (Nat.le_max_right ..)

namespace Expr

open Node

variable {e e' : Expr} {l : Level}

/-- An operand costs less than the expression, unless it continues a chain there. -/
theorem weight_operand (he : (Node.expr e).rank = e.level.ctorIdx + 1) (hl : l ≤ e.level)
    (h : (e'.within l false).nesting ≤ (e.layout false).nesting) :
    (Node.expr e').weight < (Node.expr e).weight ∨
      (l = e.level ∧ e'.level = e.level) ∧ (Node.expr e').weight ≤ (Node.expr e).weight := by
  by_cases hl' : e'.level ≤ l
  · rw [within_of_le hl'] at h
    have hrank := rank_expr_le e'
    have hle : e'.level.ctorIdx ≤ l.ctorIdx ∧ l.ctorIdx ≤ e.level.ctorIdx := ⟨hl', hl⟩
    unfold weight
    rw [he]
    simp only [nesting]
    by_cases heq : e'.level.ctorIdx = e.level.ctorIdx
    · exact .inr ⟨⟨Level.ctorIdx_inj (by omega), Level.ctorIdx_inj heq⟩, by omega⟩
    · exact .inl (by omega)
  · rw [within_of_not_le hl', Spelling.nesting_grouped] at h
    exact .inl (weight_lt_of_nesting h)

theorem rank_of_first? (h : e.first? = some (l, e')) :
    (Node.expr e).rank = e.level.ctorIdx + 1 := by
  cases e with
  | identifier => cases h
  | _ => rfl

theorem weight_first (h : e.first? = some (l, e')) :
    (Node.expr e').weight < (Node.expr e).weight ∨
      (Node.expr e).Continues (.expr e') ∧ (Node.expr e').weight ≤ (Node.expr e).weight := by
  obtain ⟨tail, htail⟩ := layout_of_first? h
  have hnesting : (e'.within l false).nesting ≤ (e.layout false).nesting := by
    rw [htail]
    exact Nat.le_max_left ..
  obtain hlt | ⟨⟨rfl, hl⟩, hle⟩ := weight_operand (rank_of_first? h) (level_of_first? h) hnesting
  · exact .inl hlt
  · exact .inr ⟨.intro h hl, hle⟩

/-- The operand of an operator must be tighter on the right. -/
theorem weight_right (he : (Node.expr e).rank = e.level.ctorIdx + 1) (hl : e.level ≠ .primary)
    (h : (e'.within e.level.tighter false).nesting ≤ (e.layout false).nesting) :
    (Node.expr e').weight < (Node.expr e).weight := by
  obtain hlt | ⟨⟨hl', -⟩, -⟩ := weight_operand he (Level.tighter_le _) h
  · exact hlt
  · refine absurd ?_ (Level.tighter_lt hl)
    rw [hl']
    exact Level.le_refl _

theorem nesting_le_within (e : Expr) (l : Level) :
    (e.layout false).nesting ≤ (e.within l false).nesting := by
  have h : (e.within .assignment false).nesting ≤ (e.within l false).nesting :=
    nesting_within_mono (Level.le_assignment l)
  rwa [within_assignment] at h

/-- A step down from an expression lowers the weight, or undoes a link of a chain. -/
theorem weight_part {y : Node} (h : y ∈ e.parts) :
    y.weight < (Node.expr e).weight ∨
      (Node.expr e).Continues y ∧ y.weight ≤ (Node.expr e).weight := by
  -- What the spelling of the expression nests bounds what the spellings of its parts do.
  have hnest : (e.layout false).nesting ≤ (Node.expr e).nesting := Nat.le_refl _
  cases e with
  | number | string | bool | null | identifier | this => cases h
  | array items =>
    obtain ⟨e, he, rfl⟩ := List.mem_map.mp h
    rw [layout] at hnest
    simp only [Spelling.nesting_append_le, Spelling.nesting_commas_le] at hnest
    exact .inl (weight_lt_of_nesting (hnest.1.2 _ (List.mem_map_of_mem he)))
  | object properties =>
    obtain ⟨p, hp, rfl⟩ := List.mem_map.mp h
    rw [layout_object] at hnest
    simp only [Spelling.nesting_append_le, Spelling.nesting_commas_le] at hnest
    have hproperty := hnest.1.2 _ (List.mem_map_of_mem hp)
    unfold propertyLayout at hproperty
    split at hproperty
    · rename_i hvariable
      obtain ⟨key, e⟩ := p
      cases e with
      | identifier =>
        rw [weight, nesting, layout, rank]
        exact .inl (Nat.lt_of_lt_of_le (Nat.zero_lt_succ _) (Nat.le_add_left ..))
      | _ => cases hvariable
    · exact .inl (weight_lt_of_nesting (Spelling.nesting_append_le.mp hproperty).2)
  | function literal =>
    obtain ⟨name, params, body, span⟩ := literal
    rw [layout] at hnest
    have hy := (FunctionDef.mk name params body span).nesting_body h
    exact .inl (weight_lt_of_nesting (Nat.lt_of_lt_of_le hy hnest))
  | unary op operand =>
    obtain rfl := List.mem_singleton.mp h
    rw [layout] at hnest
    have hoperand := (Spelling.nesting_append_le.mp hnest).2
    exact .inl (weight_lt_of_nesting (Nat.lt_of_le_of_lt (nesting_le_within _ _) hoperand))
  | update step side target =>
    obtain rfl := List.mem_singleton.mp h
    cases side with
    | before =>
      rw [layout] at hnest
      have htarget := (Spelling.nesting_append_le.mp hnest).2
      exact .inl (weight_lt_of_nesting (Nat.lt_of_le_of_lt (nesting_le_within _ _) htarget))
    | after => exact weight_first rfl
  | binary op left right =>
    simp only [parts, List.mem_cons, List.not_mem_nil, or_false] at h
    obtain rfl | rfl := h
    · exact weight_first rfl
    · rw [layout] at hnest
      exact .inl (weight_right rfl op.level_ne (Spelling.nesting_append_le.mp hnest).2)
  | logical op left right =>
    simp only [parts, List.mem_cons, List.not_mem_nil, or_false] at h
    obtain rfl | rfl := h
    · exact weight_first rfl
    · rw [layout] at hnest
      exact .inl (weight_right rfl op.level_ne (Spelling.nesting_append_le.mp hnest).2)
  | conditional test consequent alternate =>
    simp only [parts, List.mem_cons, List.not_mem_nil, or_false] at h
    rw [layout] at hnest
    simp only [Spelling.nesting_append_le] at hnest
    obtain rfl | rfl | rfl := h
    · exact weight_first rfl
    · exact .inl (weight_lt_of_nesting hnest.1.1.2)
    · exact .inl (weight_lt_of_nesting hnest.2)
  | assign op target e =>
    simp only [parts, List.mem_cons, List.not_mem_nil, or_false] at h
    rw [layout] at hnest
    obtain rfl | rfl := h
    · exact weight_first rfl
    · exact .inl (weight_lt_of_nesting (Spelling.nesting_append_le.mp hnest).2)
  | call callee arguments =>
    obtain rfl | h := List.mem_cons.mp h
    · exact weight_first rfl
    · obtain ⟨e, he, rfl⟩ := List.mem_map.mp h
      rw [layout] at hnest
      simp only [Spelling.nesting_append_le, Spelling.nesting_commas_le] at hnest
      exact .inl (weight_lt_of_nesting (hnest.1.2 _ (List.mem_map_of_mem he)))
  | member object =>
    obtain rfl := List.mem_singleton.mp h
    exact weight_first rfl
  | index object index =>
    simp only [parts, List.mem_cons, List.not_mem_nil, or_false] at h
    rw [layout] at hnest
    simp only [Spelling.nesting_append_le] at hnest
    obtain rfl | rfl := h
    · exact weight_first rfl
    · exact .inl (weight_lt_of_nesting hnest.1.2)

end Expr

namespace Stmt

open Node

theorem nesting_of_mem_optional {e : Option Expr} {y : Node} (h : y ∈ (e.map Node.expr).toList) :
    y.nesting < (optionalLayout e).nesting := by
  cases e with
  | none => cases h
  | some e =>
    obtain rfl := List.mem_singleton.mp h
    exact Nat.lt_succ_self _

/-- A step down from a statement lowers the weight. The first clause of a `for` is the only part
that nests as deep as the statement. -/
theorem weight_part {s : Stmt} (hformed : (Node.stmt s).Formed) {y : Node} (h : y ∈ s.parts) :
    y.weight < (Node.stmt s).weight := by
  have hnest : (s.layout false).nesting ≤ (Node.stmt s).nesting := Nat.le_refl _
  cases s with
  | «break» | «continue» | empty => cases h
  | declaration kind ds =>
    obtain ⟨d, hd, hy⟩ := List.mem_flatMap.mp h
    rw [layout_declaration] at hnest
    simp only [Spelling.nesting_append_le, Spelling.nesting_commas_le] at hnest
    have hdeclarator := hnest.1.2 _ (List.mem_map_of_mem hd)
    obtain ⟨name, init⟩ := d
    cases init with
    | none => cases hy
    | some e =>
      obtain rfl := List.mem_singleton.mp hy
      simp only [declaratorLayout, Option.elim_some, Spelling.nesting_append_le] at hdeclarator
      exact weight_lt_of_nesting hdeclarator.2.2
  | function literal =>
    obtain ⟨name, params, body, span⟩ := literal
    rw [layout] at hnest
    have hy := (FunctionDef.mk name params body span).nesting_body h
    exact weight_lt_of_nesting (Nat.lt_of_lt_of_le hy hnest)
  | expression e =>
    obtain rfl := List.mem_singleton.mp h
    rw [layout] at hnest
    exact weight_lt_of_nesting (Spelling.nesting_append_le.mp hnest).1
  | throw e =>
    obtain rfl := List.mem_singleton.mp h
    rw [layout] at hnest
    simp only [Spelling.nesting_append_le] at hnest
    exact weight_lt_of_nesting hnest.1.2
  | «return» e =>
    rw [layout_return] at hnest
    simp only [Spelling.nesting_append_le] at hnest
    exact weight_lt_of_nesting (Nat.lt_of_lt_of_le (nesting_of_mem_optional h) hnest.1.2)
  | block body =>
    rw [layout] at hnest
    exact weight_lt_of_nesting (Nat.lt_of_lt_of_le (nesting_of_mem_block h) hnest)
  | «while» e s =>
    rw [layout] at hnest
    simp only [Spelling.nesting_append_le, Spelling.nesting_grouped] at hnest
    simp only [parts, List.mem_cons, List.not_mem_nil, or_false] at h
    obtain rfl | rfl := h
    · exact weight_lt_of_nesting hnest.1.2
    · exact weight_lt_of_nesting (Nat.lt_of_le_of_lt s.nesting_layout hnest.2)
  | «if» e s s' =>
    rw [layout_if] at hnest
    simp only [Spelling.nesting_append_le, Spelling.nesting_grouped] at hnest
    simp only [parts, List.mem_cons] at h
    obtain rfl | rfl | h := h
    · exact weight_lt_of_nesting hnest.1.1.2
    · exact weight_lt_of_nesting (Nat.lt_of_le_of_lt s.nesting_layout hnest.1.2)
    · cases s' with
      | none => cases h
      | some s' =>
        obtain rfl := List.mem_singleton.mp h
        have hs' := (Spelling.nesting_append_le.mp hnest.2).2
        exact weight_lt_of_nesting (Nat.lt_of_le_of_lt s'.nesting_layout hs')
  | «for» init e e' s =>
    rw [layout_for] at hnest
    simp only [Spelling.nesting_append_le] at hnest
    obtain ⟨⟨⟨⟨⟨⟨⟨-, hinit⟩, -⟩, he⟩, -⟩, he'⟩, -⟩, hs⟩ := hnest
    simp only [parts, List.mem_append, List.mem_singleton] at h
    obtain ((h | h) | h) | rfl := h
    · cases init with
      | none => cases h
      | some init =>
        obtain rfl := List.mem_singleton.mp h
        have hrank : (Node.stmt init).rank = 0 := by
          obtain ⟨e, rfl⟩ | ⟨kind, ds, span, rfl⟩ := hformed init rfl <;> rfl
        rw [weight, weight, hrank]
        exact Nat.lt_succ_of_le (Nat.mul_le_mul_left 13 hinit)
    · exact weight_lt_of_nesting (Nat.lt_of_lt_of_le (nesting_of_mem_optional h) he)
    · exact weight_lt_of_nesting (Nat.lt_of_lt_of_le (nesting_of_mem_optional h) he')
    · exact weight_lt_of_nesting (Nat.lt_of_le_of_lt s.nesting_layout hs)
  | «try» body param handler finalizer =>
    rw [layout_try] at hnest
    simp only [Spelling.nesting_append_le] at hnest
    obtain ⟨⟨⟨-, hbody⟩, hhandler⟩, hfinalizer⟩ := hnest
    simp only [parts, List.mem_append] at h
    obtain (h | h) | h := h
    · exact weight_lt_of_nesting (Nat.lt_of_lt_of_le (nesting_of_mem_block h) hbody)
    · cases handler with
      | none => cases h
      | some handler =>
        have hblock := (Spelling.nesting_append_le.mp hhandler).2
        exact weight_lt_of_nesting (Nat.lt_of_lt_of_le (nesting_of_mem_block h) hblock)
    · cases finalizer with
      | none => cases h
      | some finalizer =>
        have hblock := (Spelling.nesting_append_le.mp hfinalizer).2
        exact weight_lt_of_nesting (Nat.lt_of_lt_of_le (nesting_of_mem_block h) hblock)

end Stmt

namespace Node

variable {x y : Node} {n k : Nat}

theorem Continues.mem_parts (h : x.Continues y) : y ∈ x.parts := by
  cases h with
  | intro h => exact Expr.first?_mem_parts h

theorem weight_part (hformed : x.Formed) (h : y ∈ x.parts) :
    y.weight < x.weight ∨ x.Continues y ∧ y.weight ≤ x.weight := by
  cases x with
  | expr e => exact Expr.weight_part h
  | stmt s => exact .inl (Stmt.weight_part hformed h)

/-- A way down has at most as many nodes as the weight allows, but for the links of chains. -/
theorem Descent.le_weight (h : x.Descent n k) (hformed : x.Everywhere Formed) :
    n ≤ x.weight + 1 + k := by
  induction h with
  | here => omega
  | link hlink below ih =>
    obtain ⟨hx, hparts⟩ := everywhere_iff.mp hformed
    have hy := ih (hparts _ hlink.mem_parts)
    obtain hlt | ⟨-, hle⟩ := weight_part hx hlink.mem_parts
    · omega
    · omega
  | step hpart hlink below ih =>
    obtain ⟨hx, hparts⟩ := everywhere_iff.mp hformed
    have hy := ih (hparts _ hpart)
    obtain hlt | ⟨hlink', -⟩ := weight_part hx hpart
    · omega
    · exact absurd hlink' hlink

end Node

/-! ### Chains of any length -/

/-- The text, wherever it stands, is cut into these tokens and gaps, without a fault. -/
def Spells (cs : List Char) (ts : List Token) : Prop :=
  ∀ p, faultsOf (pieces p cs) = [] ∧ (tokensOf (pieces p cs)).map Spanned.value = ts

theorem spells_nil : Spells [] [] := by
  intro p
  rw [pieces]
  exact ⟨rfl, rfl⟩

theorem Spells.cons {c : Char} {cs : List Char} {t : Token} {n : Nat} {ts : List Token}
    (h : scan c cs = (.token t, n)) (hrest : Spells (cs.drop n) ts) :
    Spells (c :: cs) (t :: ts) := by
  intro p
  rw [pieces, h]
  obtain ⟨hfaults, htokens⟩ := hrest (p.after (c :: cs.take n))
  exact ⟨hfaults, congrArg (t :: ·) htokens⟩

theorem Spells.tokenize {cs : List Char} {ts : List Token} (h : Spells cs ts) :
    ∃ us, tokenize (String.ofList cs) = .ok us ∧ us.map Spanned.value = ts ++ [.finish] := by
  obtain ⟨hfaults, htokens⟩ := h .start
  unfold Script.tokenize
  rw [String.toList_ofList]
  simp only [hfaults]
  refine ⟨_, rfl, ?_⟩
  rw [List.map_append, htokens]
  rfl

/-- `a + a + … + a`, with so many signs. -/
def Expr.sum : Nat → Expr
  | 0 => .identifier "a" default
  | n + 1 => .binary .add (sum n) (.identifier "a" default) default

def sumText (n : Nat) : String :=
  String.ofList ('a' :: ((List.replicate n ['+', 'a']).flatten ++ [';']))

def sumTokens (n : Nat) : List Token :=
  .identifier "a" :: (List.replicate n [.symbol .plus, .identifier "a"]).flatten

theorem spells_sum (n : Nat) : Spells ('a' :: ((List.replicate n ['+', 'a']).flatten ++ [';']))
    (sumTokens n ++ [.symbol .semicolon]) := by
  -- The name ends where the text goes on.
  have hname {c : Char} {cs : List Char} (hc : isNamePart c = false) :
      scan 'a' (c :: cs) = (.token (.identifier "a"), 0) := by
    have hpart : (c :: cs).takeWhile isNamePart = [] := by
      rw [List.takeWhile_cons, hc]
      rfl
    unfold scan
    rw [hpart]
    rfl
  induction n with
  | zero =>
    have hsemicolon : scan ';' [] = (.token (.symbol .semicolon), 0) := rfl
    exact .cons (hname rfl) (.cons hsemicolon spells_nil)
  | succ n ih =>
    have hplus (cs : List Char) : scan '+' ('a' :: cs) = (.token (.symbol .plus), 0) := rfl
    simp only [sumTokens, List.replicate_succ, List.flatten_cons, List.cons_append,
      List.nil_append] at ih ⊢
    exact .cons (hname rfl) (.cons (hplus _) ih)

namespace Expr

theorem level_sum_le (n : Nat) : (sum n).level ≤ .additive := by
  cases n <;> exact Nat.le_of_ble_eq_true rfl

theorem layout_sum (n : Nat) (opens : Bool) :
    ((sum n).layout opens).tokens = sumTokens n ∧ ((sum n).layout opens).nesting = 0 := by
  have hname (opens : Bool) : (identifier "a" default).layout opens = .of [.identifier "a"] := by
    rw [layout]
  induction n with
  | zero =>
    rw [sum, hname]
    exact ⟨rfl, rfl⟩
  | succ n ih =>
    have hleft : (sum n).within BinaryOp.add.level opens = (sum n).layout opens :=
      within_of_le (level_sum_le n)
    have hright : (identifier "a" default).within BinaryOp.add.level.tighter false =
        .of [.identifier "a"] := by
      rw [within_of_le (Level.primary_le _), hname]
    rw [sum, layout, hleft, hright]
    constructor
    · simp only [Spelling.tokens_append, ih.1, sumTokens, List.replicate_succ', List.flatten_append,
        List.cons_append, List.append_assoc]
      rfl
    · simp only [Spelling.nesting_append, ih.2, Spelling.nesting_mark, Spelling.nesting_of,
        Nat.max_self]

theorem formed_sum (n : Nat) : (Node.expr (sum n)).Everywhere Node.Formed := by
  have hname : (Node.expr (.identifier "a" default)).Everywhere Node.Formed :=
    Node.everywhere_iff.mpr ⟨trivial, List.forall_mem_nil _⟩
  induction n with
  | zero => exact hname
  | succ n ih =>
    refine Node.everywhere_iff.mpr ⟨trivial, fun y hy => ?_⟩
    obtain rfl | hy := List.mem_cons.mp hy
    · exact ih
    · obtain rfl := List.mem_singleton.mp hy
      exact hname

/-- Wherever the sum was read, a way leads down through all its signs. -/
theorem descent_of_bare_sum {n : Nat} {e : Expr} (h : e.bare = (sum n).bare) :
    ∃ k, (Node.expr e).Descent (n + 1) k := by
  induction n generalizing e with
  | zero => exact ⟨0, .here _⟩
  | succ n ih =>
    cases e with
    | binary op left right =>
      simp only [sum, bare, binary.injEq] at h
      obtain ⟨k, hk⟩ := ih h.2.1
      exact hk.of_part (List.mem_cons_self ..)
    | _ => simp only [sum, bare, reduceCtorEq] at h

end Expr

namespace Program

theorem ofSource_sum (n : Nat) : ∃ p, ofSource (sumText n) = .ok p ∧
    p.bare = (Program.mk [.expression (.sum n)] default).bare := by
  obtain ⟨us, htokenize, hus⟩ := (spells_sum n).tokenize
  have hlayout := Expr.layout_sum n true
  have hspelled : us.map Spanned.value =
      (Program.mk [.expression (.sum n)] default).render ++ [.finish] := by
    rw [hus, render, spelled, List.flatMap_singleton, Stmt.layout, Spelling.tokens_append,
      Spelling.tokens_nested, hlayout.1]
    rfl
  have hformed (s : Stmt) (hs : s ∈ [Stmt.expression (.sum n)]) :
      (Node.stmt s).Everywhere Node.Formed ∧ ¬ s.Escapes ∧
        (s.layout true).nesting < maxNesting := by
    obtain rfl := List.mem_singleton.mp hs
    refine ⟨Node.everywhere_iff.mpr ⟨trivial, fun y hy => ?_⟩, fun h => (by cases h), ?_⟩
    · obtain rfl := List.mem_singleton.mp hy
      exact Expr.formed_sum n
    · rw [Stmt.layout, Spelling.nesting_append, Spelling.nesting_nested, hlayout.2]
      decide
  obtain ⟨q, hq, hbare⟩ := ofTokens_spelled hformed hspelled
  refine ⟨q, ?_, hbare⟩
  simp only [ofSource, sumText, htokenize, hq]

theorem descent_sum (n : Nat) : ∃ p s k, ofSource (sumText n) = .ok p ∧ s ∈ p.statements ∧
    (Node.stmt s).Descent (n + 2) k := by
  obtain ⟨⟨statements, span⟩, hp, hbare⟩ := ofSource_sum n
  simp only [bare, mk.injEq, and_true, List.map_cons, List.map_nil] at hbare
  obtain ⟨s, rfl, hs⟩ := List.map_eq_singleton_iff.mp hbare
  cases s with
  | expression e =>
    simp only [Stmt.bare, Stmt.expression.injEq] at hs
    obtain ⟨k, hk⟩ := Expr.descent_of_bare_sum hs
    obtain ⟨k', hk'⟩ := hk.of_part (x := .stmt (.expression e)) (List.mem_singleton_self _)
    exact ⟨_, _, k', hp, List.mem_singleton_self _, hk'⟩
  | «if» | «for» | «return» | «try» =>
    simp only [Stmt.bare_if, Stmt.bare_for, Stmt.bare_return, Stmt.bare_try, Stmt.bare,
      reduceCtorEq] at hs
  | _ => simp only [Stmt.bare, reduceCtorEq] at hs

/-- The limit of nesting bounds the depth of accepted scripts, but for the links of chains. -/
theorem descent_le {source : String} {p : Program} (h : ofSource source = .ok p) {s : Stmt}
    (hs : s ∈ p.statements) {n k : Nat} (hdescent : (Node.stmt s).Descent n k) :
    n ≤ 13 * maxNesting + k := by
  obtain ⟨hformed, -, hnesting⟩ := fits_of_ofSource h s hs
  have hle := hdescent.le_weight hformed
  have hrank : (Node.stmt s).rank ≤ 1 := by
    cases s with
    | «for» => exact Nat.le_refl 1
    | _ => exact Nat.zero_le 1
  have hlayout := s.nesting_layout
  simp only [Node.weight, Node.nesting] at hle
  omega

theorem descent_le_sample : ∃ p s n k, ofSource (sumText 1) = .ok p ∧ s ∈ p.statements ∧
    (Node.stmt s).Descent n k ∧ n ≤ 13 * maxNesting + k := by
  obtain ⟨p, s, k, hp, hs, hdescent⟩ := descent_sum 1
  exact ⟨p, s, _, k, hp, hs, hdescent, descent_le hp hs hdescent⟩

/-- No bound is there for the depth of accepted scripts: a chain can be longer. -/
theorem descent_unbounded : ¬ ∃ K, ∀ {source : String} {p : Program}, ofSource source = .ok p →
    ∀ s ∈ p.statements, ∀ {n k : Nat}, (Node.stmt s).Descent n k → n ≤ K := by
  rintro ⟨K, hK⟩
  obtain ⟨p, s, k, hp, hs, hdescent⟩ := descent_sum K
  have hle := hK hp s hs hdescent
  omega

end Program

end ModuleLoader.Script
