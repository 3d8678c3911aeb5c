import ModuleLoader.Proofs.Leavings
import ModuleLoader.Proofs.Spellings
import ModuleLoader.Proofs.Statements

/-! Every expression that is read is well-formed, and its shortest spelling nests no deeper than
the tokens that it was read off, if that is so one level of nesting further in. -/
namespace ModuleLoader.Script

open Reading Node

/-! ### What fits in some levels of nesting -/

/-- The expression, read off tokens of which this is the first, is well-formed, and some levels of
nesting are enough for its spelling. If a statement opens with it, the tokens did not start with
a brace or a `function` either. -/
structure Expr.Fits (l : Level) (t : Token) (left : Nat) (e : Expr) : Prop where
  formed : (Node.expr e).Everywhere Formed
  nesting : ∀ opens, (opens = true → t.opensStatement = false) → (e.within l opens).nesting ≤ left

/-- The expression is well-formed, and its spelling fits one level of nesting further in. -/
structure Expr.FitsInside (left : Nat) (e : Expr) : Prop where
  formed : (Node.expr e).Everywhere Formed
  nesting : (e.layout false).nesting < left

structure FunctionDef.Fits (left : Nat) (f : FunctionDef) : Prop where
  formed : ∀ s ∈ f.body, (Node.stmt s).Everywhere Formed
  stays : ∀ s ∈ f.body, ¬ s.Escapes
  nesting : f.layout.nesting ≤ left

/-- The statement, with these tokens after it, is well-formed, and some levels of nesting are enough
for its spelling. A loop exit stays within it if there is no loop around it. -/
structure Stmt.Fits (l : Bool) (left : Nat) (rest : Tokens) (s : Stmt) : Prop where
  formed : (Node.stmt s).Everywhere Formed
  nesting : (s.layout true).nesting ≤ left
  stays : l = false → ¬ s.Escapes
  dangles : s.dangles = true → rest.current ≠ .keyword .«else»

/-- What is read one level of nesting further in fits in fewer levels. -/
structure Nested.Fits (n : Nested) (left : Nat) : Prop where
  expression : ∀ ts, n.expression.Leaves ts fun e _ => ∃ k < left, e.Fits .assignment ts.current k
  operand : ∀ ts, n.operand.Leaves ts fun e _ => ∃ k < left, e.Fits .unary ts.current k
  statement : ∀ l ts, (n.statement l).Leaves ts fun s rest => ∃ k < left, s.Fits l k rest

section Expressions

variable {l : Level} {t : Token} {left : Nat} {e e' : Expr}

namespace Expr

theorem nesting_within_le (l : Level) (opens : Bool) (e : Expr) :
    (e.within l opens).nesting ≤ (e.layout false).nesting + 1 := by
  by_cases h : e.level ≤ l
  · rw [within_of_le h]
    cases opens with
    | false => exact Nat.le_succ _
    | true => exact nesting_layout_true e
  · exact Nat.le_of_eq (by rw [within_of_not_le h, Spelling.nesting_grouped])

namespace Fits

theorem of_layout (hl : e.level ≤ l) (hformed : (Node.expr e).Formed)
    (hparts : ∀ y ∈ e.parts, y.Everywhere Formed)
    (h : ∀ opens, (opens = true → t.opensStatement = false) → (e.layout opens).nesting ≤ left) :
    e.Fits l t left where
  formed := everywhere_iff.mpr ⟨hformed, hparts⟩
  nesting opens hopens := by
    rw [within_of_le hl]
    exact h opens hopens

theorem mono {k : Level} (h : e.Fits k t left) (hk : k ≤ l) : e.Fits l t left where
  formed := h.formed
  nesting opens hopens := Nat.le_trans (nesting_within_mono hk) (h.nesting opens hopens)

theorem operand (h : e.Fits l t left) : (e.within l false).nesting ≤ left :=
  h.nesting false nofun

theorem inside {k : Nat} (h : e.Fits .assignment t k) (hk : k < left) : e.FitsInside left where
  formed := h.formed
  nesting := by
    have hwithin : e.within .assignment false = e.layout false := within_assignment
    rw [← hwithin]
    exact Nat.lt_of_le_of_lt h.operand hk

theorem leaf {span : Span} (h : t.leaf? span = some e) : e.Fits .primary t left := by
  unfold Token.leaf? at h
  split at h <;> cases h
  all_goals
    refine of_layout (Level.le_refl _) trivial (List.forall_mem_nil _) fun opens _ => ?_
    rw [layout]
    exact Nat.zero_le _

theorem grouped (h : e.FitsInside left) : e.Fits l t left where
  formed := h.formed
  nesting opens _ := Nat.le_trans (nesting_within_le l opens e) h.nesting

theorem array {items : List Expr} {span : Span} (h : ∀ e ∈ items, e.FitsInside left) :
    (Expr.array items span).Fits .primary t left := by
  refine of_layout (Level.le_refl _) trivial ?_ fun opens _ => ?_
  · exact List.forall_mem_map.mpr fun e he => (h e he).formed
  · rw [layout]
    simp only [Spelling.nesting_append_le, Spelling.nesting_mark, Spelling.nesting_commas_le,
      List.forall_mem_map, Nat.zero_le, true_and, and_true]
    exact fun e he => (h e he).nesting

theorem object {properties : List (String × Expr)} {span : Span}
    (ht : t.opensStatement = true)
    (h : ∀ p ∈ properties, (Node.expr p.2).Everywhere Formed ∧ (propertyLayout p).nesting ≤ left) :
    (Expr.object properties span).Fits .primary t left := by
  refine of_layout (Level.le_refl _) trivial ?_ fun opens hopens => ?_
  · exact List.forall_mem_map.mpr fun p hp => (h p hp).1
  · cases opens with
    | true => exact absurd (ht.symm.trans (hopens rfl)) nofun
    | false =>
      rw [layout_object]
      simp only [Spelling.nesting_append_le, Spelling.nesting_mark, Spelling.nesting_commas_le,
        List.forall_mem_map, Nat.zero_le, true_and, and_true]
      exact fun p hp => (h p hp).2

theorem function {literal : FunctionDef} (ht : t.opensStatement = true) (h : literal.Fits left) :
    (Expr.function literal).Fits .primary t left := by
  obtain ⟨name, params, body, span⟩ := literal
  refine of_layout (Level.le_refl _) h.stays ?_ fun opens hopens => ?_
  · exact List.forall_mem_map.mpr h.formed
  · cases opens with
    | true => exact absurd (ht.symm.trans (hopens rfl)) nofun
    | false =>
      rw [layout]
      exact h.nesting

theorem member {name : String} {span : Span} (h : e.Fits .callMember t left) :
    (Expr.member e name span).Fits .callMember t left := by
  refine of_layout (Level.le_refl _) trivial (List.forall_mem_singleton.mpr h.formed)
    fun opens hopens => ?_
  rw [layout]
  exact Spelling.nesting_append_le.mpr ⟨h.nesting opens hopens, Nat.zero_le _⟩

theorem index {span : Span} (h : e.Fits .callMember t left) (h' : e'.FitsInside left) :
    (Expr.index e e' span).Fits .callMember t left := by
  refine of_layout (Level.le_refl _) trivial ?_ fun opens hopens => ?_
  · exact List.forall_mem_cons.mpr ⟨h.formed, List.forall_mem_singleton.mpr h'.formed⟩
  · rw [layout]
    simp only [Spelling.nesting_append_le, Spelling.nesting_mark, Spelling.nesting_nested,
      Nat.zero_le, and_true]
    exact ⟨h.nesting opens hopens, h'.nesting⟩

theorem call {args : List Expr} {span : Span} (h : e.Fits .callMember t left)
    (hargs : ∀ a ∈ args, a.FitsInside left) : (Expr.call e args span).Fits .callMember t left := by
  refine of_layout (Level.le_refl _) trivial ?_ fun opens hopens => ?_
  · exact List.forall_mem_cons.mpr
      ⟨h.formed, List.forall_mem_map.mpr fun a ha => (hargs a ha).formed⟩
  · rw [layout]
    simp only [Spelling.nesting_append_le, Spelling.nesting_mark, Spelling.nesting_commas_le,
      List.forall_mem_map, Nat.zero_le, and_true]
    exact ⟨h.nesting opens hopens, fun a ha => (hargs a ha).nesting⟩

theorem updateAfter {step : Step} {span : Span} (h : e.Fits .callMember t left)
    (htarget : e.isTarget = true) : (Expr.update step .after e span).Fits .postfixed t left := by
  refine of_layout (Level.le_refl _) htarget (List.forall_mem_singleton.mpr h.formed)
    fun opens hopens => ?_
  rw [layout]
  exact Spelling.nesting_append_le.mpr ⟨h.nesting opens hopens, Nat.zero_le _⟩

theorem updateBefore {k : Nat} {t' : Token} {step : Step} {span : Span} (h : e.Fits .unary t' k)
    (hk : k < left) (htarget : e.isTarget = true) :
    (Expr.update step .before e span).Fits .unary t left := by
  refine of_layout (Level.le_refl _) htarget (List.forall_mem_singleton.mpr h.formed)
    fun opens _ => ?_
  rw [layout]
  exact Spelling.nesting_append_le.mpr ⟨Nat.zero_le _, Nat.lt_of_le_of_lt h.operand hk⟩

theorem unary {k : Nat} {t' : Token} {op : UnaryOp} {span : Span} (h : e.Fits .unary t' k)
    (hk : k < left) : (Expr.unary op e span).Fits .unary t left := by
  refine of_layout (Level.le_refl _) trivial (List.forall_mem_singleton.mpr h.formed)
    fun opens _ => ?_
  rw [layout]
  exact Spelling.nesting_append_le.mpr ⟨Nat.zero_le _, Nat.lt_of_le_of_lt h.operand hk⟩

theorem binary {t' : Token} {op : BinaryOp} {span : Span} (h : e.Fits op.level t left)
    (h' : e'.Fits op.level.tighter t' left) :
    (Expr.binary op e e' span).Fits op.level t left := by
  refine of_layout (Level.le_refl _) trivial ?_ fun opens hopens => ?_
  · exact List.forall_mem_cons.mpr ⟨h.formed, List.forall_mem_singleton.mpr h'.formed⟩
  · rw [layout]
    simp only [Spelling.nesting_append_le, Spelling.nesting_mark, Nat.zero_le, and_true]
    exact ⟨h.nesting opens hopens, h'.operand⟩

theorem logical {t' : Token} {op : LogicalOp} {span : Span} (h : e.Fits op.level t left)
    (h' : e'.Fits op.level.tighter t' left) :
    (Expr.logical op e e' span).Fits op.level t left := by
  refine of_layout (Level.le_refl _) trivial ?_ fun opens hopens => ?_
  · exact List.forall_mem_cons.mpr ⟨h.formed, List.forall_mem_singleton.mpr h'.formed⟩
  · rw [layout]
    simp only [Spelling.nesting_append_le, Spelling.nesting_mark, Nat.zero_le, and_true]
    exact ⟨h.nesting opens hopens, h'.operand⟩

theorem conditional {e'' : Expr} {span : Span} (h : e.Fits .disjunction t left)
    (h' : e'.FitsInside left) (h'' : e''.FitsInside left) :
    (Expr.conditional e e' e'' span).Fits .conditional t left := by
  refine of_layout (Level.le_refl _) trivial ?_ fun opens hopens => ?_
  · exact List.forall_mem_cons.mpr ⟨h.formed, List.forall_mem_cons.mpr
      ⟨h'.formed, List.forall_mem_singleton.mpr h''.formed⟩⟩
  · rw [layout]
    simp only [Spelling.nesting_append_le, Spelling.nesting_mark, Spelling.nesting_nested,
      Nat.zero_le, and_true]
    exact ⟨⟨h.nesting opens hopens, h'.nesting⟩, h''.nesting⟩

theorem assign {op : Option BinaryOp} {mark : Symbol} {span : Span} (h : e.Fits .conditional t left)
    (htarget : e.isTarget = true) (hop : assignMark? op = some mark) (h' : e'.FitsInside left) :
    (Expr.assign op e e' span).Fits .assignment t left := by
  refine of_layout (Level.le_refl _) ⟨htarget, by rw [hop]; rfl⟩ ?_ fun opens hopens => ?_
  · exact List.forall_mem_cons.mpr ⟨h.formed, List.forall_mem_singleton.mpr h'.formed⟩
  · rw [layout]
    simp only [Spelling.nesting_append_le, Spelling.nesting_mark, Spelling.nesting_nested,
      Nat.zero_le, and_true]
    exact ⟨h.nesting opens hopens, h'.nesting⟩

end Fits
end Expr

end Expressions

section Levels

variable {operand : Reading Expr} {level : Level} {left : Nat}

theorem leaves_binary {op? : Token → Option BinaryOp}
    (hop : ∀ t op, op? t = some op → t = .symbol op.mark ∧ op.level = level)
    (h : ∀ ts, operand.Leaves ts fun e _ => e.Fits level.tighter ts.current left) (ts : Tokens) :
    (leftAssociative operand op? Expr.join).Leaves ts fun e _ => e.Fits level ts.current left := by
  refine leaves_leftAssociative (R := fun e => ∃ t, e.Fits level.tighter t left)
    ((h ts).imp fun e _ he => he.mono level.tighter_le)
    (fun ts => (h ts).imp fun e _ he => ⟨_, he⟩) ?_
  rintro t op e e' hop' he ⟨t', he'⟩
  obtain ⟨-, rfl⟩ := hop t op hop'
  exact he.binary he'

theorem leaves_logical {op? : Token → Option LogicalOp}
    (hop : ∀ t op, op? t = some op → t = .symbol op.mark ∧ op.level = level)
    (h : ∀ ts, operand.Leaves ts fun e _ => e.Fits level.tighter ts.current left) (ts : Tokens) :
    (leftAssociative operand op? Expr.joinLogical).Leaves ts fun e _ =>
      e.Fits level ts.current left := by
  refine leaves_leftAssociative (R := fun e => ∃ t, e.Fits level.tighter t left)
    ((h ts).imp fun e _ he => he.mono level.tighter_le)
    (fun ts => (h ts).imp fun e _ he => ⟨_, he⟩) ?_
  rintro t op e e' hop' he ⟨t', he'⟩
  obtain ⟨-, rfl⟩ := hop t op hop'
  exact he.logical he'

end Levels

namespace Nested.Fits

variable {n : Nested} {left : Nat}

theorem inside (hn : n.Fits left) (ts : Tokens) :
    n.expression.Leaves ts fun e _ => e.FitsInside left := by
  refine (hn.expression ts).imp ?_
  rintro e rest ⟨k, hk, he⟩
  exact he.inside hk

/-! ### Expressions -/

theorem body (hn : n.Fits left) (l : Bool) (ts : Tokens) :
    (block (n.statement l)).Leaves ts fun b _ => (∀ s ∈ b.1, (Node.stmt s).Everywhere Formed) ∧
      (l = false → ∀ s ∈ b.1, ¬ s.Escapes) ∧ (blockLayout b.1).nesting ≤ left := by
  have hstatement (ts : Tokens) : (n.statement l).Leaves ts fun s _ =>
      (Node.stmt s).Everywhere Formed ∧ (l = false → ¬ s.Escapes) ∧
        (s.layout true).nesting < left := by
    refine (hn.statement l ts).imp ?_
    rintro s rest ⟨k, hk, hs⟩
    exact ⟨hs.formed, hs.stays, Nat.lt_of_le_of_lt hs.nesting hk⟩
  refine (leaves_block hstatement ts).imp fun b rest hb => ?_
  refine ⟨fun s hs => (hb s hs).1, fun hl s hs => (hb s hs).2.1 hl, ?_⟩
  exact Spelling.nesting_block_le.mpr (List.forall_mem_map.mpr fun s hs => (hb s hs).2.2)

theorem functionRest (hn : n.Fits left) (name : Option String) (start : Span) (ts : Tokens) :
    (functionRest n name start).Leaves ts fun f _ => f.Fits left ∧ f.name = name := by
  unfold Script.functionRest
  refine Leaves.expect ?_
  have hparam (ts : Tokens) : (Prod.fst <$> identifier).Leaves ts fun _ _ => True :=
    fun _ _ _ => trivial
  refine (leaves_listUntil hparam _).bind ?_
  rintro ⟨params, -⟩ rest -
  refine (hn.body false rest).bind ?_
  rintro ⟨body, stop⟩ rest ⟨hformed, hstays, hnesting⟩
  refine .pure ⟨⟨hformed, hstays rfl, ?_⟩, rfl⟩
  rw [FunctionDef.layout]
  simp only [Spelling.nesting_append_le, Spelling.nesting_word, Spelling.nesting_of,
    Spelling.nesting_mark, Spelling.nesting_commas_le, List.forall_mem_map, Nat.zero_le, true_and,
    implies_true]
  exact hnesting

theorem functionExpression (hn : n.Fits left) (ts : Tokens) :
    (functionExpression n).Leaves ts fun f _ => f.Fits left := by
  unfold Script.functionExpression
  refine Leaves.advance (Leaves.current ?_)
  split
  · exact Leaves.advance ((hn.functionRest _ _ _).imp fun f _ hf => hf.1)
  · exact (hn.functionRest _ _ _).imp fun f _ hf => hf.1

theorem functionDeclaration (hn : n.Fits left) (ts : Tokens) :
    (functionDeclaration n).Leaves ts fun f _ => f.Fits left ∧ f.name.isSome = true := by
  unfold Script.functionDeclaration
  refine Leaves.advance (Leaves.identifier fun name => ?_)
  exact (hn.functionRest _ _ _).imp fun f _ hf => ⟨hf.1, by rw [hf.2]; rfl⟩

theorem property (hn : n.Fits left) (ts : Tokens) :
    (property n).Leaves ts fun p _ =>
      (Node.expr p.2).Everywhere Formed ∧ (propertyLayout p).nesting ≤ left := by
  have hkeyed (key : String) (e : Expr) (he : e.FitsInside left) :
      (Node.expr e).Everywhere Formed ∧ (propertyLayout (key, e)).nesting ≤ left := by
    refine ⟨he.formed, ?_⟩
    unfold propertyLayout
    split
    · exact Nat.zero_le _
    · exact Spelling.nesting_append_le.mpr ⟨Nat.zero_le _, he.nesting⟩
  have hvalue (key : String) : (propertyValue n key).Leaves ts fun p _ =>
      (Node.expr p.2).Everywhere Formed ∧ (propertyLayout p).nesting ≤ left := by
    unfold propertyValue
    refine Leaves.advance (Leaves.expect ((hn.inside _).bind fun e rest he => ?_))
    exact .pure (hkeyed key e he)
  unfold Script.property
  refine Leaves.here (Leaves.current ?_)
  split
  · exact hvalue _
  · exact hvalue _
  · exact hvalue _
  · rename_i name _
    refine Leaves.advance (Leaves.isAt (Leaves.isAt ?_))
    split
    · refine .pure ⟨everywhere_iff.mpr ⟨trivial, nofun⟩, ?_⟩
      have hvariable : (Expr.identifier name ts.span).isVariable name = true :=
        beq_self_eq_true name
      rw [propertyLayout, if_pos hvariable]
      exact Nat.zero_le _
    · refine Leaves.expect ((hn.inside _).bind fun e rest he => ?_)
      exact .pure (hkeyed name e he)
  · exact .fail

theorem primary (hn : n.Fits left) (ts : Tokens) :
    (primary n).Leaves ts fun e _ => e.Fits .primary ts.current left := by
  unfold Script.primary
  refine Leaves.here (Leaves.current ?_)
  split
  case h_8 =>
    refine Leaves.advance ((hn.inside _).bind fun e rest he => Leaves.expect ?_)
    exact .pure (.grouped he)
  case h_9 =>
    refine Leaves.advance ((leaves_listUntil hn.inside _).bind ?_)
    rintro ⟨items, stop⟩ rest hitems
    exact .pure (.array hitems)
  case h_10 hc =>
    refine Leaves.advance ((leaves_listUntil hn.property _).bind ?_)
    rintro ⟨properties, stop⟩ rest hproperties
    exact .pure (.object (by rw [hc]; rfl) hproperties)
  case h_11 hc =>
    refine (hn.functionExpression _).bind fun f rest hf => ?_
    exact .pure (.function (by rw [hc]; rfl) hf)
  case h_12 => exact .fail
  case h_13 => exact .fail
  all_goals
    rename_i hc
    rw [hc]
    exact Leaves.advance (.pure (.leaf rfl))

theorem suffixes (hn : n.Fits left) {t : Token} (fuel : Nat) : ∀ e ts, e.Fits .callMember t left →
    (suffixes n fuel e).Leaves ts fun e' _ => e'.Fits .callMember t left := by
  induction fuel with
  | zero => exact fun e ts he => .pure he
  | succ fuel ih =>
    intro e ts he
    unfold Script.suffixes
    apply Leaves.current
    split
    · have hname (ts : Tokens) : memberName.Leaves ts fun _ _ => True := fun _ _ _ => trivial
      refine Leaves.advance ((hname _).bind ?_)
      rintro ⟨name, stop⟩ rest -
      exact ih _ rest he.member
    · refine Leaves.advance ((hn.inside _).bind fun e' rest he' => Leaves.expect ?_)
      exact ih _ _ (he.index he')
    · refine Leaves.advance ((leaves_listUntil hn.inside _).bind ?_)
      rintro ⟨args, stop⟩ rest hargs
      exact ih _ rest (he.call hargs)
    · exact .pure he

theorem callMember (hn : n.Fits left) (ts : Tokens) :
    (callMember n).Leaves ts fun e _ => e.Fits .callMember ts.current left := by
  unfold Script.callMember
  refine (hn.primary ts).bind fun e rest he => Leaves.current ?_
  have he' : e.Fits .callMember ts.current left := he.mono (Level.tighter_le .callMember)
  split
  · exact Leaves.get (hn.suffixes _ e rest he')
  · exact .pure he'

theorem postfixed (hn : n.Fits left) (ts : Tokens) :
    (postfixed n).Leaves ts fun e _ => e.Fits .postfixed ts.current left := by
  unfold Script.postfixed
  refine (hn.callMember ts).bind fun e rest he => Leaves.current ?_
  split
  · refine Leaves.advance ?_
    unfold updateOf
    split
    · rename_i htarget
      exact .pure (he.updateAfter htarget)
    · exact .failAt
  · exact .pure (he.mono (Level.tighter_le .postfixed))

theorem unary (hn : n.Fits left) (ts : Tokens) :
    (unary n).Leaves ts fun e _ => e.Fits .unary ts.current left := by
  unfold Script.unary
  apply Leaves.current
  split
  · refine Leaves.advance ((hn.operand _).bind ?_)
    rintro e rest ⟨k, hk, he⟩
    exact .pure (he.unary hk)
  · refine Leaves.advance ((hn.operand _).bind ?_)
    rintro e rest ⟨k, hk, he⟩
    unfold updateOf
    split
    · rename_i htarget
      exact .pure (he.updateBefore hk htarget)
    · exact .failAt
  · exact (hn.postfixed ts).imp fun e _ he => he.mono (Level.tighter_le .unary)

theorem multiplicative (hn : n.Fits left) (ts : Tokens) :
    (multiplicative n).Leaves ts fun e _ => e.Fits .multiplicative ts.current left :=
  leaves_binary eq_of_multiplicativeOp? hn.unary ts

theorem additive (hn : n.Fits left) (ts : Tokens) :
    (additive n).Leaves ts fun e _ => e.Fits .additive ts.current left :=
  leaves_binary eq_of_additiveOp? hn.multiplicative ts

theorem relational (hn : n.Fits left) (ts : Tokens) :
    (relational n).Leaves ts fun e _ => e.Fits .relational ts.current left :=
  leaves_binary eq_of_relationalOp? hn.additive ts

theorem equality (hn : n.Fits left) (ts : Tokens) :
    (equality n).Leaves ts fun e _ => e.Fits .equality ts.current left :=
  leaves_binary eq_of_equalityOp? hn.relational ts

theorem conjunction (hn : n.Fits left) (ts : Tokens) :
    (conjunction n).Leaves ts fun e _ => e.Fits .conjunction ts.current left :=
  leaves_logical eq_of_andOp? hn.equality ts

theorem disjunction (hn : n.Fits left) (ts : Tokens) :
    (disjunction n).Leaves ts fun e _ => e.Fits .disjunction ts.current left :=
  leaves_logical eq_of_orOp? hn.conjunction ts

theorem conditional (hn : n.Fits left) (ts : Tokens) :
    (conditional n).Leaves ts fun e _ => e.Fits .conditional ts.current left := by
  unfold Script.conditional
  refine (hn.disjunction ts).bind fun e rest he => Leaves.skip ?_ ?_
  · refine (hn.inside _).bind fun e' rest he' => Leaves.expect ?_
    refine (hn.inside _).bind fun e'' rest he'' => ?_
    exact .pure (he.conditional he' he'')
  · exact .pure (he.mono (Level.tighter_le .conditional))

theorem assignment (hn : n.Fits left) (ts : Tokens) :
    (assignment n).Leaves ts fun e _ => e.Fits .assignment ts.current left := by
  unfold Script.assignment
  refine (hn.conditional ts).bind fun e rest he => Leaves.current ?_
  split
  · exact .pure (he.mono (Level.tighter_le .assignment))
  · rename_i op hop
    obtain ⟨mark, -, hmark⟩ := eq_of_assignOp? hop
    split
    · rename_i htarget
      refine Leaves.advance ((hn.inside _).bind fun e' rest he' => ?_)
      exact .pure (he.assign htarget hmark he')
    · exact .failAt

end Nested.Fits

end ModuleLoader.Script
