import ModuleLoader.Proofs.Rereadings

/-! Well-formed trees are read off their shortest spelling, at any depth that leaves as many levels
of nesting as the spelling takes. -/
namespace ModuleLoader.Script

open Reading

/-! ### Expressions and the statements in them -/

/-- The expression is read off its spelling wherever one of a level has to stand, at any depth that
leaves enough levels of nesting. After a conditional expression no assignment can follow. -/
def Expr.Rereadable (e : Expr) : Prop :=
  ∀ limit left l opens, (e.within l opens).nesting ≤ left →
    ((e.level = .conditional → l ≠ .conditional) →
      (nestedAt limit left).Rereads l (e.within l opens).tokens e) ∧
    (nestedAt limit left).Arrives l (e.within l opens).tokens e

/-- The statement is read off its spelling, if what follows does not go on with it; loop exits need
a loop around the statement. -/
def Stmt.Rereadable (s : Stmt) : Prop :=
  ∀ limit left l, (s.layout true).nesting ≤ left → (l = false → ¬ s.Escapes) →
    ∀ vs, s.Closes (Token.ahead vs) →
      (anyStatement (nestedAt limit left) l).Gives ((s.layout true).tokens ++ vs)
        fun s' rest => s'.bare = s.bare ∧ rest = vs

section Nesting

variable {limit left : Nat} {l : Level} {opens : Bool} {us : List Token} {e : Expr}

theorem expects_of_rereads {k : Nat}
    (h : ∀ left, k ≤ left → (nestedAt limit left).Rereads .assignment us e) (hk : k < left) :
    (nestedAt limit left).Expects us e := by
  cases left with
  | zero => cases hk
  | succ left => exact h left (Nat.le_of_lt_succ hk)

namespace Expr.Rereadable

theorem rereads (h : e.Rereadable) (hn : (e.within l opens).nesting ≤ left)
    (hl : l ≠ .conditional) : (nestedAt limit left).Rereads l (e.within l opens).tokens e :=
  (h limit left l opens hn).1 fun _ => hl

theorem rereads_target (h : e.Rereadable) (hn : (e.within .conditional opens).nesting ≤ left)
    (htarget : e.isTarget = true) :
    (nestedAt limit left).Rereads .conditional (e.within .conditional opens).tokens e := by
  refine (h limit left .conditional opens hn).1 fun hl => ?_
  cases e with
  | identifier | member | index => cases hl
  | _ => cases htarget

theorem arrives (h : e.Rereadable) (hn : (e.within l opens).nesting ≤ left) :
    (nestedAt limit left).Arrives l (e.within l opens).tokens e :=
  (h limit left l opens hn).2

theorem expects (h : e.Rereadable) (hn : (e.layout opens).nesting < left) :
    (nestedAt limit left).Expects (e.layout opens).tokens e := by
  refine expects_of_rereads (fun left hn => ?_) hn
  have hwithin : e.within .assignment opens = e.layout opens := within_assignment
  rw [← hwithin] at hn ⊢
  exact h.rereads hn (by decide)

theorem operand (h : e.Rereadable) (hn : (e.within .unary false).nesting < left)
    (vs : List Token) (hvs : Level.unary.Closes (Token.ahead vs)) :
    (nestedAt limit left).operand.Gives ((e.within .unary false).tokens ++ vs)
      fun e' rest => e'.bare = e.bare ∧ rest = vs := by
  cases left with
  | zero => cases hn
  | succ left =>
    have hread : (nestedAt limit left).Rereads .unary _ e :=
      h.rereads (Nat.le_of_lt_succ hn) (by decide)
    exact hread vs hvs

end Expr.Rereadable

theorem Stmt.Rereadable.expects {s : Stmt} {l : Bool} (h : s.Rereadable)
    (hn : (s.layout true).nesting < left) (hl : l = false → ¬ s.Escapes) :
    (nestedAt limit left).ExpectsStatement l s := by
  intro vs hvs
  cases left with
  | zero => cases hn
  | succ left => exact h limit left l (Nat.le_of_lt_succ hn) hl vs hvs

theorem expects_body {body : List Stmt} {l : Bool} (h : ∀ s ∈ body, s.Rereadable)
    (hn : (blockLayout body).nesting ≤ left) (hl : l = false → ∀ s ∈ body, ¬ s.Escapes) :
    ∀ s ∈ body, (nestedAt limit left).ExpectsStatement l s := by
  intro s hs
  have hs' := Spelling.nesting_block_le.mp hn _ (List.mem_map_of_mem hs)
  exact (h s hs).expects hs' fun hf => hl hf s hs

end Nesting

/-- What is read off the spelling of an expression where nothing calls for parentheses around all of
it. -/
structure Expr.Own (e : Expr) (n : Nested) (us : List Token) : Prop where
  rereads : e.level ≠ .conditional → n.Rereads e.level us e
  conditional : e.level = .conditional → n.Rereads .assignment us e
  arrives : n.Arrives e.level us e

namespace Expr.Own

variable {e : Expr} {n : Nested} {us : List Token}

theorem of_rereads {l : Level} (h : n.Rereads l us e) (hlevel : e.level = l)
    (hloop : n.loop? l = none) (hl : l ≠ .conditional) : e.Own n us := by
  subst hlevel
  exact ⟨fun _ => h, fun h => absurd h hl, fun loop h => by rw [hloop] at h; cases h⟩

theorem of_arrives (h : n.Arrives e.level us e) {loop : Nat → Expr → Reading Expr}
    (hloop : n.loop? e.level = some loop) : e.Own n us := by
  refine ⟨fun _ => h.rereads hloop, fun hl => ?_, h⟩
  rw [hl] at hloop
  cases hloop

end Expr.Own

namespace Expr

variable {limit left : Nat} {opens : Bool} {e : Expr}

theorem begins_nested (e : Expr) :
    ∃ t rest, (e.layout false).nested.tokens = t :: rest ∧ t.opensExpression = true := by
  obtain ⟨t, rest, hts, ht⟩ := e.begins_layout false
  exact ⟨t, rest, hts, ht.expression⟩

/-- A literal that a statement must not begin with is read in parentheses there. -/
theorem own_of_literal (hlevel : e.level = .primary)
    (hgrouped : e.layout true = (e.layout false).grouped)
    (h : ∀ left, (e.layout false).nesting ≤ left →
      (nestedAt limit left).Rereads .primary (e.layout false).tokens e)
    (hn : (e.layout opens).nesting ≤ left) :
    e.Own (nestedAt limit left) (e.layout opens).tokens := by
  have hread : (nestedAt limit left).Rereads .primary (e.layout opens).tokens e := by
    cases opens with
    | false => exact h left hn
    | true =>
      rw [hgrouped, Spelling.nesting_grouped] at hn
      rw [hgrouped]
      refine .grouped (expects_of_rereads (fun left hn => ?_) hn)
      obtain ⟨t, rest, hts, ht⟩ := e.begins_layout false
      exact (h left hn).ascend (by decide) fun _ =>
        ⟨t, rest, hts, ht.operand (by rw [hlevel]; decide)⟩
  exact .of_rereads hread hlevel rfl (by decide)


/-- The left operand of a binary operator goes on to the whole. -/
theorem own_of_parts (hformed : (Node.expr e).Formed)
    (hexprs : ∀ e', .expr e' ∈ e.parts → e'.Rereadable)
    (hstmts : ∀ s, .stmt s ∈ e.parts → s.Rereadable) (hn : (e.layout opens).nesting ≤ left) :
    e.Own (nestedAt limit left) (e.layout opens).tokens := by
  cases e with
  | number | string | null | identifier | this =>
    rw [layout]
    exact .of_rereads (.leaf rfl) rfl rfl (by decide)
  | bool b =>
    rw [layout]
    cases b <;> exact .of_rereads (.leaf rfl) rfl rfl (by decide)
  | array items span =>
    rw [layout] at hn ⊢
    have hitems (e : Expr) (he : e ∈ items) :
        (nestedAt limit left).Expects (e.layout false).nested.tokens e := by
      have hn' := (Spelling.nesting_append_le.mp (Spelling.nesting_append_le.mp hn).1).2
      exact (hexprs e (List.mem_map_of_mem he)).expects
        (Spelling.nesting_commas_le.mp hn' _ (List.mem_map_of_mem he))
    exact .of_rereads (.array hitems (fun e _ => begins_nested e) span) rfl rfl (by decide)
  | object properties span =>
    refine own_of_literal rfl ?_ (fun left hn => .object (fun p hp hvariable => ?_) span) hn
    · rw [layout, layout]
      rfl
    · have he := hexprs p.2 (List.mem_map.mpr ⟨p, hp, rfl⟩)
      rw [layout_object] at hn
      have hn' := (Spelling.nesting_append_le.mp (Spelling.nesting_append_le.mp hn).1).2
      have hn'' := Spelling.nesting_commas_le.mp hn' _ (List.mem_map_of_mem hp)
      rw [propertyLayout, if_neg hvariable] at hn''
      exact he.expects (Spelling.nesting_append_le.mp hn'').2
  | function literal =>
    obtain ⟨name, params, body, span⟩ := literal
    refine own_of_literal rfl ?_ (fun left hn => ?_) hn
    · rw [layout, layout]
      rfl
    · rw [layout, FunctionDef.layout] at hn
      rw [layout]
      exact .function (expects_body (fun s hs => hstmts s (List.mem_map_of_mem hs))
        (Spelling.nesting_append_le.mp hn).2 fun _ => hformed) span
  | unary op e span =>
    have he := hexprs e (List.mem_cons_self ..)
    rw [layout] at hn ⊢
    have hn' := (Spelling.nesting_append_le.mp hn).2
    exact .of_rereads (.unary (he.operand hn') op span) rfl rfl (by decide)
  | binary op e e' span =>
    have he := hexprs e (List.mem_cons_self ..)
    have he' := hexprs e' (List.mem_cons_of_mem _ (List.mem_cons_self ..))
    obtain ⟨op?, hloop, -⟩ := Nested.loop?_binary (nestedAt limit left) op
    rw [layout] at hn ⊢
    simp only [Spelling.nesting_append_le] at hn
    have harrives : (nestedAt limit left).Arrives op.level _ _ :=
      (he.arrives hn.1.1).binary (he'.rereads hn.2 (by cases op <;> decide)) span
    rw [Spelling.tokens_append, Spelling.tokens_append, List.append_assoc]
    exact .of_arrives harrives hloop
  | logical op e e' span =>
    have he := hexprs e (List.mem_cons_self ..)
    have he' := hexprs e' (List.mem_cons_of_mem _ (List.mem_cons_self ..))
    obtain ⟨op?, hloop, -⟩ := Nested.loop?_logical (nestedAt limit left) op
    rw [layout] at hn ⊢
    simp only [Spelling.nesting_append_le] at hn
    have harrives : (nestedAt limit left).Arrives op.level _ _ :=
      (he.arrives hn.1.1).logical (he'.rereads hn.2 (by cases op <;> decide)) span
    rw [Spelling.tokens_append, Spelling.tokens_append, List.append_assoc]
    exact .of_arrives harrives hloop
  | conditional e e' e'' span =>
    have he := hexprs e (by simp [parts])
    have he' := hexprs e' (by simp [parts])
    have he'' := hexprs e'' (by simp [parts])
    rw [layout] at hn ⊢
    simp only [Spelling.nesting_append_le, Spelling.nesting_nested] at hn
    obtain ⟨⟨⟨⟨hn, -⟩, hn'⟩, -⟩, hn''⟩ := hn
    have hread : (nestedAt limit left).Rereads .assignment _ _ :=
      (he.rereads hn (by decide)).conditional (he'.expects hn') (he''.expects hn'') span
    refine ⟨fun h => absurd rfl h, fun _ => ?_, fun loop h => by cases h⟩
    simpa only [Spelling.tokens_append, Spelling.tokens_mark, Spelling.tokens_nested,
      List.append_assoc, List.cons_append, List.nil_append] using hread
  | assign op target e span =>
    have he := hexprs target (by simp [parts])
    have he' := hexprs e (by simp [parts])
    obtain ⟨htarget, hop⟩ := hformed
    obtain ⟨mark, hmark⟩ := Option.isSome_iff_exists.mp hop
    rw [layout, hmark] at hn ⊢
    simp only [Spelling.nesting_append_le, Spelling.nesting_nested] at hn
    have hread : (nestedAt limit left).Rereads .assignment _ _ :=
      (he.rereads_target hn.1.1 htarget).assign htarget hmark (he'.expects hn.2) span
    rw [Spelling.tokens_append, Spelling.tokens_append, List.append_assoc]
    exact .of_rereads hread rfl rfl (by decide)
  | update step side target span =>
    have he := hexprs target (by simp [parts])
    cases side with
    | before =>
      rw [layout] at hn ⊢
      have hn' := (Spelling.nesting_append_le.mp hn).2
      exact .of_rereads (.updateBefore (he.operand hn') hformed step span) rfl rfl (by decide)
    | after =>
      rw [layout] at hn ⊢
      have hn' := (Spelling.nesting_append_le.mp hn).1
      have htarget : (nestedAt limit left).Rereads .callMember _ target :=
        he.rereads hn' (by decide)
      exact .of_rereads (.updateAfter htarget hformed step span) rfl rfl (by decide)
  | call e args span =>
    have he := hexprs e (by simp [parts])
    rw [layout] at hn ⊢
    simp only [Spelling.nesting_append_le] at hn
    have hargs (a : Expr) (ha : a ∈ args) :
        (nestedAt limit left).Expects (a.layout false).nested.tokens a :=
      (hexprs a (List.mem_cons_of_mem _ (List.mem_map_of_mem ha))).expects
        (Spelling.nesting_commas_le.mp hn.1.2 _ (List.mem_map_of_mem ha))
    have harrives : (nestedAt limit left).Arrives (call e args span).level _ _ :=
      (he.arrives hn.1.1.1).call hargs (fun a _ => begins_nested a) span
    refine .of_arrives ?_ rfl
    simpa only [Spelling.tokens_append, Spelling.tokens_mark, List.append_assoc, List.cons_append,
      List.nil_append] using harrives
  | member e name span =>
    have he := hexprs e (by simp [parts])
    rw [layout] at hn ⊢
    have harrives : (nestedAt limit left).Arrives .callMember _ _ :=
      (he.arrives (Spelling.nesting_append_le.mp hn).1).member name span
    exact .of_arrives harrives rfl
  | index e e' span =>
    have he := hexprs e (by simp [parts])
    have he' := hexprs e' (by simp [parts])
    rw [layout] at hn ⊢
    simp only [Spelling.nesting_append_le, Spelling.nesting_nested] at hn
    have harrives : (nestedAt limit left).Arrives (index e e' span).level _ _ :=
      (he.arrives hn.1.1.1).index (he'.expects hn.1.2) span
    refine .of_arrives ?_ rfl
    simpa only [Spelling.tokens_append, Spelling.tokens_mark, Spelling.tokens_nested,
      List.append_assoc, List.cons_append, List.nil_append] using harrives

/-- Wherever one of a level has to stand an expression is read off its own spelling, in parentheses
if it is looser. -/
theorem Rereadable.of_own (h : ∀ limit left opens, (e.layout opens).nesting ≤ left →
    e.Own (nestedAt limit left) (e.layout opens).tokens) : e.Rereadable := by
  have hbegins (opens : Bool) (hl : e.level ≤ .postfixed) :
      ∃ t rest, (e.layout opens).tokens = t :: rest ∧ t.opensOperand = true := by
    obtain ⟨t, rest, hts, ht⟩ := e.begins_layout opens
    exact ⟨t, rest, hts, ht.operand hl⟩
  have hwhole (limit left : Nat) (opens : Bool) (hn : (e.layout opens).nesting ≤ left) :
      (nestedAt limit left).Rereads .assignment (e.layout opens).tokens e := by
    have hown := h limit left opens hn
    by_cases hl : e.level = .conditional
    · exact hown.conditional hl
    · exact (hown.rereads hl).ascend e.level.le_assignment (hbegins opens)
  intro limit left l opens hn
  by_cases hle : e.level ≤ l
  · rw [within_of_le hle] at hn ⊢
    have hown := h limit left opens hn
    by_cases hl : e.level = .conditional
    · rw [hl] at hle ⊢
      refine ⟨fun hne => ?_, fun loop hloop => ?_⟩
      · obtain rfl := Level.eq_assignment hle (hne rfl)
        exact hwhole limit left opens hn
      · by_cases hne : l = .conditional
        · rw [hne] at hloop
          cases hloop
        · rw [Level.eq_assignment hle hne] at hloop
          cases hloop
    · refine ⟨fun _ => (hown.rereads hl).ascend hle (hbegins opens), ?_⟩
      by_cases heq : e.level = l
      · rw [← heq]
        exact hown.arrives
      · exact ((hown.rereads hl).ascend (Level.le_tighter hle heq) (hbegins opens)).arrives
  · rw [within_of_not_le hle] at hn ⊢
    rw [Spelling.nesting_grouped] at hn
    have hgrouped : (nestedAt limit left).Rereads .primary (e.layout false).grouped.tokens e :=
      .grouped (expects_of_rereads (fun left hn => hwhole limit left false hn) hn)
    have hparen : ∃ t rest, (e.layout false).grouped.tokens = t :: rest ∧ t.opensOperand = true :=
      ⟨_, _, rfl, rfl⟩
    exact ⟨fun _ => hgrouped.ascend l.primary_le fun _ => hparen,
      (hgrouped.ascend l.tighter.primary_le fun _ => hparen).arrives⟩

theorem rereadable_of_parts (hformed : (Node.expr e).Formed)
    (hexprs : ∀ e', .expr e' ∈ e.parts → e'.Rereadable)
    (hstmts : ∀ s, .stmt s ∈ e.parts → s.Rereadable) : e.Rereadable :=
  .of_own fun _ _ _ hn => own_of_parts hformed hexprs hstmts hn

end Expr

end ModuleLoader.Script
