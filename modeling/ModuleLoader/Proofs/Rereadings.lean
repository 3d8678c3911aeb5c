import ModuleLoader.Proofs.Acceptance
import ModuleLoader.Proofs.Statements

/-! Expressions are read off their shortest spelling. What comes after the spelling must not go on
with the expression; at the levels that read operands in a chain the chain may go on with whatever
comes. -/
namespace ModuleLoader.Script

open Reading

/-! ### Tokens that go on with an expression -/

/-- The level of the expressions that the token goes on with, the operand before it read. -/
def Token.joins? : Token → Option Level
  | .symbol .dot | .symbol .leftBracket | .symbol .leftParen => some .callMember
  | .symbol .increment | .symbol .decrement => some .postfixed
  | .symbol .times | .symbol .divide | .symbol .remainder => some .multiplicative
  | .symbol .plus | .symbol .minus => some .additive
  | .symbol .less | .symbol .lessEqual | .symbol .greater | .symbol .greaterEqual =>
    some .relational
  | .symbol .equal | .symbol .notEqual | .symbol .strictEqual | .symbol .strictNotEqual =>
    some .equality
  | .symbol .and => some .conjunction
  | .symbol .or | .symbol .coalesce => some .disjunction
  | .symbol .question => some .conditional
  | .symbol .assign | .symbol .plusAssign | .symbol .minusAssign | .symbol .timesAssign
  | .symbol .divideAssign | .symbol .remainderAssign => some .assignment
  | _ => none

namespace Level

/-- No expression of the level goes on with the token. -/
def Closes (l : Level) (t : Token) : Prop :=
  ∀ l', t.joins? = some l' → ¬ l' ≤ l

variable {k l : Level} {t : Token}

theorem ctorIdx_tighter (l : Level) : l.tighter.ctorIdx = l.ctorIdx - 1 := by
  cases l <;> rfl

theorem tighter_lt (h : l ≠ .primary) : ¬ l ≤ l.tighter := by
  cases l <;> first | exact absurd rfl h | decide

theorem ctorIdx_inj (h : k.ctorIdx = l.ctorIdx) : k = l := by
  rw [← ofNat_ctorIdx k, h, ofNat_ctorIdx]

theorem le_tighter (h : k ≤ l) (hne : k ≠ l) : k ≤ l.tighter := by
  have hlt : k.ctorIdx ≠ l.ctorIdx := fun heq => hne (ctorIdx_inj heq)
  show k.ctorIdx ≤ l.tighter.ctorIdx
  have hle : k.ctorIdx ≤ l.ctorIdx := h
  rw [ctorIdx_tighter]
  omega

theorem primary_le (l : Level) : primary ≤ l :=
  Nat.zero_le l.ctorIdx

theorem le_assignment (l : Level) : l ≤ assignment := by
  cases l <;> decide

theorem eq_assignment (h : conditional ≤ l) (hne : l ≠ conditional) : l = assignment := by
  cases l with
  | conditional => exact absurd rfl hne
  | assignment => rfl
  | _ => exact absurd h (by decide)

/-- From a level to all looser ones, each from the next tighter. -/
theorem le_induction {P : Level → Prop} (hk : P k)
    (step : ∀ l, l ≠ .primary → k ≤ l.tighter → P l.tighter → P l) (l : Level) (h : k ≤ l) :
    P l := by
  by_cases hne : k = l
  · exact hne ▸ hk
  · have hprimary : l ≠ .primary := by
      rintro rfl
      exact hne (by cases k <;> first | rfl | cases h)
    have hle := le_tighter h hne
    exact step l hprimary hle (le_induction hk step l.tighter hle)
termination_by l.ctorIdx
decreasing_by exact Nat.not_le.mp (tighter_lt hprimary)

theorem Closes.mono (h : l.Closes t) (hk : k ≤ l) : k.Closes t :=
  fun l' ht hl => h l' ht (le_trans hl hk)

theorem closes_of_none (h : t.joins? = none) : l.Closes t := by
  intro l' ht
  rw [h] at ht
  cases ht

theorem closes_of_some (h : t.joins? = some l) (hl : l ≠ .primary) : l.tighter.Closes t := by
  intro l' ht
  rw [h] at ht
  cases ht
  exact tighter_lt hl

theorem closes_primary : primary.Closes t := by
  intro l' ht
  unfold Token.joins? at ht
  split at ht <;> cases ht <;> decide

end Level

theorem BinaryOp.joins (op : BinaryOp) : (Token.symbol op.mark).joins? = some op.level := by
  cases op <;> rfl

theorem LogicalOp.joins (op : LogicalOp) : (Token.symbol op.mark).joins? = some op.level := by
  cases op <;> rfl

theorem Step.joins (step : Step) : (Token.symbol step.mark).joins? = some .postfixed := by
  cases step <;> rfl

theorem joins_assignMark {op : Option BinaryOp} {mark : Symbol} (h : assignMark? op = some mark) :
    (Token.symbol mark).joins? = some .assignment := by
  unfold assignMark? at h
  split at h <;> cases h <;> rfl

theorem BinaryOp.level_ne (op : BinaryOp) : op.level ≠ .primary := by
  cases op <;> decide

theorem LogicalOp.level_ne (op : LogicalOp) : op.level ≠ .primary := by
  cases op <;> decide

section Closed

variable {t : Token} {l : Level}

theorem binaryOp?_of_closes {op? : Token → Option BinaryOp} (h : l.Closes t)
    (hop : ∀ t op, op? t = some op → t = .symbol op.mark ∧ op.level = l) : op? t = none := by
  cases ht : op? t with
  | none => rfl
  | some op =>
    obtain ⟨rfl, rfl⟩ := hop t op ht
    exact absurd (Level.le_refl _) (h _ op.joins)

theorem logicalOp?_of_closes {op? : Token → Option LogicalOp} (h : l.Closes t)
    (hop : ∀ t op, op? t = some op → t = .symbol op.mark ∧ op.level = l) : op? t = none := by
  cases ht : op? t with
  | none => rfl
  | some op =>
    obtain ⟨rfl, rfl⟩ := hop t op ht
    exact absurd (Level.le_refl _) (h _ op.joins)

theorem step?_of_closes (h : Level.postfixed.Closes t) : step? t = none := by
  cases ht : step? t with
  | none => rfl
  | some step =>
    rw [eq_of_step? ht] at h
    exact absurd (Level.le_refl _) (h _ step.joins)

theorem assignOp?_of_closes (h : Level.assignment.Closes t) : assignOp? t = none := by
  cases ht : assignOp? t with
  | none => rfl
  | some op =>
    obtain ⟨mark, rfl, hmark⟩ := eq_of_assignOp? ht
    exact absurd (Level.le_refl _) (h _ (joins_assignMark hmark))

theorem isSymbol_of_closes {m : Symbol} (h : l.Closes t) (hm : (Token.symbol m).joins? = some l) :
    t.isSymbol m = false := by
  cases ht : t.isSymbol m with
  | false => rfl
  | true =>
    rw [Token.eq_symbol ht] at h
    exact absurd (Level.le_refl _) (h _ hm)

theorem opensSuffix_of_closes (h : Level.callMember.Closes t) : opensSuffix t = false := by
  rw [opensSuffix, isSymbol_of_closes h rfl, isSymbol_of_closes h rfl, isSymbol_of_closes h rfl]
  rfl

end Closed

theorem Expr.isTarget_bare (e : Expr) : e.bare.isTarget = e.isTarget := by
  cases e <;> rw [bare] <;> rfl

theorem isTarget_of_bare {e e' : Expr} (h : e'.bare = e.bare) (he : e.isTarget = true) :
    e'.isTarget = true := by
  rw [← Expr.isTarget_bare, h, Expr.isTarget_bare, he]

/-! ### The readings of the levels -/

/-- The reading of the expressions of a level. -/
def Nested.at (n : Nested) : Level → Reading Expr
  | .primary => primary n
  | .callMember => callMember n
  | .postfixed => postfixed n
  | .unary => unary n
  | .multiplicative => multiplicative n
  | .additive => additive n
  | .relational => relational n
  | .equality => equality n
  | .conjunction => conjunction n
  | .disjunction => disjunction n
  | .conditional => conditional n
  | .assignment => assignment n

/-- How the reading of a level goes on after its first operand, if it does so in a loop. -/
def Nested.loop? (n : Nested) : Level → Option (Nat → Expr → Reading Expr)
  | .callMember => some (suffixes n)
  | .multiplicative => some (chain (unary n) multiplicativeOp? Expr.join)
  | .additive => some (chain (multiplicative n) additiveOp? Expr.join)
  | .relational => some (chain (additive n) relationalOp? Expr.join)
  | .equality => some (chain (relational n) equalityOp? Expr.join)
  | .conjunction => some (chain (equality n) andOp? Expr.joinLogical)
  | .disjunction => some (chain (conjunction n) orOp? Expr.joinLogical)
  | _ => none

/-- The reading of the level takes these tokens off those that come, and what it reads off them is
the expression, if what follows does not go on with it. -/
def Nested.Rereads (n : Nested) (l : Level) (us : List Token) (e : Expr) : Prop :=
  ∀ vs, l.Closes (Token.ahead vs) →
    (n.at l).Gives (us ++ vs) fun e' rest => e'.bare = e.bare ∧ rest = vs

/-- The loop of the level arrives at the expression when it has taken these tokens. -/
def Nested.Arrives (n : Nested) (l : Level) (us : List Token) (e : Expr) : Prop :=
  ∀ loop, n.loop? l = some loop → ∀ vs Q, l.tighter.Closes (Token.ahead vs) →
    (∀ e', e'.bare = e.bare → ∀ fuel, vs.length ≤ fuel → (loop fuel e').Gives vs Q) →
    (n.at l).Gives (us ++ vs) Q

namespace Nested

variable {n : Nested} {l : Level} {us us' us'' : List Token} {e e' e'' : Expr}

theorem gives_suffixes_end {vs : List Token} {fuel : Nat} {Q : Expr → List Token → Prop}
    (h : opensSuffix (Token.ahead vs) = false) : (suffixes n fuel e).Gives vs Q ↔ Q e vs := by
  refine gives_iff_of_run fun ts hts => ?_
  rw [← Tokens.current_eq hts] at h
  cases fuel with
  | zero => rfl
  | succ fuel =>
    unfold suffixes
    rw [run_current]
    split
    · rename_i hc
      rw [hc] at h
      cases h
    · rename_i hc
      rw [hc] at h
      cases h
    · rename_i hc
      rw [hc] at h
      cases h
    · rfl

theorem Rereads.arrives (h : n.Rereads l.tighter us e) : n.Arrives l us e := by
  intro loop hloop vs Q hvs hQ
  have hread := h vs hvs
  have hchain {β : Type} {operand : Reading Expr} {op? : Token → Option β}
      {join : β → Expr → Expr → Expr} (heq : n.at l.tighter = operand)
      (hQ : ∀ e', e'.bare = e.bare → ∀ fuel, vs.length ≤ fuel →
        (chain operand op? join fuel e').Gives vs Q) :
      (leftAssociative operand op? join).Gives (us ++ vs) Q := by
    rw [← heq]
    refine gives_leftAssociative hread ?_
    rintro e' rest ⟨he', rfl⟩ fuel hfuel
    rw [heq]
    exact hQ e' he' fuel hfuel
  cases l with
  | callMember =>
    cases hloop
    show (callMember n).Gives (us ++ vs) Q
    unfold callMember
    refine hread.bind ?_
    rintro e' rest ⟨he', rfl⟩
    apply Gives.current
    split
    · exact Gives.get fun ts hts => hQ e' he' _ (Nat.le_of_eq hts.symm)
    · rename_i hopens
      rw [Bool.not_eq_true] at hopens
      exact .pure ((gives_suffixes_end hopens).mp (hQ e' he' _ (Nat.le_refl _)))
  | multiplicative => cases hloop; exact hchain rfl hQ
  | additive => cases hloop; exact hchain rfl hQ
  | relational => cases hloop; exact hchain rfl hQ
  | equality => cases hloop; exact hchain rfl hQ
  | conjunction => cases hloop; exact hchain rfl hQ
  | disjunction => cases hloop; exact hchain rfl hQ
  | _ => cases hloop

theorem Arrives.rereads {loop : Nat → Expr → Reading Expr} (hloop : n.loop? l = some loop)
    (h : n.Arrives l us e) : n.Rereads l us e := by
  intro vs hvs
  refine h loop hloop vs _ (hvs.mono l.tighter_le) ?_
  intro e' he' fuel hfuel
  cases l with
  | callMember =>
    cases hloop
    exact (gives_suffixes_end (opensSuffix_of_closes hvs)).mpr ⟨he', rfl⟩
  | multiplicative =>
    cases hloop
    exact (gives_chain_end (binaryOp?_of_closes hvs eq_of_multiplicativeOp?)).mpr ⟨he', rfl⟩
  | additive =>
    cases hloop
    exact (gives_chain_end (binaryOp?_of_closes hvs eq_of_additiveOp?)).mpr ⟨he', rfl⟩
  | relational =>
    cases hloop
    exact (gives_chain_end (binaryOp?_of_closes hvs eq_of_relationalOp?)).mpr ⟨he', rfl⟩
  | equality =>
    cases hloop
    exact (gives_chain_end (binaryOp?_of_closes hvs eq_of_equalityOp?)).mpr ⟨he', rfl⟩
  | conjunction =>
    cases hloop
    exact (gives_chain_end (logicalOp?_of_closes hvs eq_of_andOp?)).mpr ⟨he', rfl⟩
  | disjunction =>
    cases hloop
    exact (gives_chain_end (logicalOp?_of_closes hvs eq_of_orOp?)).mpr ⟨he', rfl⟩
  | _ => cases hloop

/-- What is read at a level is read at the next looser one. -/
theorem Rereads.up (hl : l ≠ .primary) (h : n.Rereads l.tighter us e)
    (hbegins : l = .unary → ∃ t rest, us = t :: rest ∧ t.opensOperand = true) :
    n.Rereads l us e := by
  cases l with
  | primary => exact absurd rfl hl
  | callMember | multiplicative | additive | relational | equality | conjunction | disjunction =>
    exact h.arrives.rereads rfl
  | postfixed =>
    intro vs hvs
    show (postfixed n).Gives (us ++ vs) _
    unfold postfixed
    refine (h vs (hvs.mono (Level.tighter_le .postfixed))).bind ?_
    rintro e' _ ⟨he', rfl⟩
    apply Gives.current
    rw [step?_of_closes hvs]
    exact .pure ⟨he', rfl⟩
  | unary =>
    intro vs hvs
    obtain ⟨t, rest, rfl, ht⟩ := hbegins rfl
    have hprefix : unaryOp? t = none ∧ step? t = none := by
      unfold Token.opensOperand at ht
      split at ht <;> first | exact ⟨rfl, rfl⟩ | cases ht
    show (unary n).Gives (t :: rest ++ vs) _
    unfold unary
    apply Gives.current
    rw [List.cons_append, Token.ahead_cons, hprefix.1, hprefix.2]
    exact h vs (hvs.mono (Level.tighter_le .unary))
  | conditional =>
    intro vs hvs
    show (conditional n).Gives (us ++ vs) _
    unfold conditional
    refine (h vs (hvs.mono (Level.tighter_le .conditional))).bind ?_
    rintro e' _ ⟨he', rfl⟩
    exact Gives.skip_not (isSymbol_of_closes hvs rfl) (.pure ⟨he', rfl⟩)
  | assignment =>
    intro vs hvs
    show (assignment n).Gives (us ++ vs) _
    unfold assignment
    refine (h vs (hvs.mono (Level.tighter_le .assignment))).bind ?_
    rintro e' _ ⟨he', rfl⟩
    apply Gives.current
    rw [assignOp?_of_closes hvs]
    exact .pure ⟨he', rfl⟩

theorem Rereads.ascend {k : Level} (h : n.Rereads k us e) (hl : k ≤ l)
    (hbegins : k ≤ .postfixed → ∃ t rest, us = t :: rest ∧ t.opensOperand = true) :
    n.Rereads l us e := by
  refine Level.le_induction (P := fun l => n.Rereads l us e) h
    (fun l hl hk ih => ih.up hl ?_) l hl
  rintro rfl
  exact hbegins hk

/-! ### Expressions one level of nesting further in -/

/-- The expression one level of nesting further in is read off these tokens, if what follows does
not go on with it. -/
def Expects (n : Nested) (us : List Token) (e : Expr) : Prop :=
  ∀ vs, Level.assignment.Closes (Token.ahead vs) →
    n.expression.Gives (us ++ vs) fun e' rest => e'.bare = e.bare ∧ rest = vs

theorem gives_expressions {close : Symbol} (hcomma : close ≠ .comma)
    (hcloses : (Token.symbol close).joins? = none)
    (hopens : (Token.symbol close).opensExpression = false) {es : List Expr}
    {spell : Expr → Spelling} (hes : ∀ e ∈ es, n.Expects (spell e).tokens e)
    (hbegins : ∀ e ∈ es, ∃ t rest, (spell e).tokens = t :: rest ∧ t.opensExpression = true)
    (vs : List Token) :
    (listUntil close n.expression).Gives
      ((Spelling.commas (es.map spell)).tokens ++ .symbol close :: vs)
      fun r rest => r.1.map Expr.bare = es.map Expr.bare ∧ rest = vs := by
  refine gives_listUntil hcomma vs es ?_ ?_
  · intro e he vs
    obtain ⟨t, rest, hts, ht⟩ := hbegins e he
    rw [hts]
    exact Token.isSymbol_of_opensExpression ht hopens
  · intro e he vs hvs
    refine hes e he vs (Level.closes_of_none ?_)
    obtain h | h := hvs
    · rw [h]
      rfl
    · rw [h, hcloses]

/-! ### Chains of operands -/

theorem gives_memberName {β : Type} {name : String} {f : String × Span → Reading β}
    {vs : List Token} {Q : β → List Token → Prop} (h : ∀ span, (f (name, span)).Gives vs Q) :
    (memberName >>= f).Gives (nameToken name :: vs) Q := by
  have hname : (nameToken name).asName? = some name := by
    unfold nameToken
    split
    · rename_i word hword
      have htext := List.find?_some (p := fun word : Keyword => word.text == name) hword
      exact congrArg some (eq_of_beq htext)
    · rfl
  unfold memberName
  rw [bind_assoc]
  apply Gives.current
  rw [Token.ahead_cons, hname]
  dsimp only
  rw [bind_assoc]
  exact Gives.advance (Token.isFinish_eq_false (Token.key?_of_asName? hname)) h

theorem Arrives.member (he : n.Arrives .callMember us e) (name : String) (span : Span) :
    n.Arrives .callMember (us ++ [.symbol .dot, nameToken name]) (.member e name span) := by
  rintro loop ⟨⟩ vs Q - hQ
  rw [List.append_assoc]
  refine he _ rfl _ _ Level.closes_primary ?_
  rintro e' he' (_ | fuel) hfuel
  · cases hfuel
  unfold suffixes
  apply Gives.current
  refine Gives.advance rfl fun _ => gives_memberName fun _ => ?_
  refine hQ _ (by rw [Expr.bare, Expr.bare, he']) fuel ?_
  simp only [List.cons_append, List.nil_append, List.length_cons] at hfuel
  omega

theorem Arrives.index (he : n.Arrives .callMember us e) (he' : n.Expects us' e') (span : Span) :
    n.Arrives .callMember (us ++ .symbol .leftBracket :: us' ++ [.symbol .rightBracket])
      (.index e e' span) := by
  rintro loop ⟨⟩ vs Q - hQ
  rw [List.append_assoc, List.append_assoc]
  refine he _ rfl _ _ Level.closes_primary ?_
  rintro f hf (_ | fuel) hfuel
  · cases hfuel
  unfold suffixes
  apply Gives.current
  refine Gives.advance rfl fun _ => ?_
  refine (he' ([.symbol .rightBracket] ++ vs) (Level.closes_of_none rfl)).bind ?_
  rintro f' _ ⟨hf', rfl⟩
  refine Gives.expect fun _ => hQ _ (by rw [Expr.bare, Expr.bare, hf, hf']) fuel ?_
  simp only [List.cons_append, List.nil_append, List.length_append, List.length_cons] at hfuel
  omega

theorem Arrives.call (he : n.Arrives .callMember us e) {args : List Expr} {spell : Expr → Spelling}
    (hargs : ∀ a ∈ args, n.Expects (spell a).tokens a)
    (hbegins : ∀ a ∈ args, ∃ t rest, (spell a).tokens = t :: rest ∧ t.opensExpression = true)
    (span : Span) :
    n.Arrives .callMember (us ++ .symbol .leftParen :: (Spelling.commas (args.map spell)).tokens ++
      [.symbol .rightParen]) (.call e args span) := by
  rintro loop ⟨⟩ vs Q - hQ
  rw [List.append_assoc, List.append_assoc]
  refine he _ rfl _ _ Level.closes_primary ?_
  rintro f hf (_ | fuel) hfuel
  · cases hfuel
  unfold suffixes
  apply Gives.current
  refine Gives.advance rfl fun _ => ?_
  have hcomma : Symbol.rightParen ≠ .comma := by decide
  refine (gives_expressions hcomma rfl rfl hargs hbegins vs).bind ?_
  rintro r _ ⟨hr, rfl⟩
  refine hQ _ (by simp only [Expr.bare, hf, hr]) fuel ?_
  simp only [List.cons_append, List.nil_append, List.length_append, List.length_cons] at hfuel
  omega

theorem loop?_binary (n : Nested) (op : BinaryOp) : ∃ op?,
    n.loop? op.level = some (chain (n.at op.level.tighter) op? Expr.join) ∧
      op? (.symbol op.mark) = some op := by
  cases op <;> exact ⟨_, rfl, rfl⟩

theorem loop?_logical (n : Nested) (op : LogicalOp) : ∃ op?,
    n.loop? op.level = some (chain (n.at op.level.tighter) op? Expr.joinLogical) ∧
      op? (.symbol op.mark) = some op := by
  cases op <;> exact ⟨_, rfl, rfl⟩

/-- A left operand goes on to the whole if the loop of its level joins operands as the whole
does. -/
theorem Arrives.joined {β : Type} {op : β} {op? : Token → Option β} {join : β → Expr → Expr → Expr}
    {mark : Symbol} {whole : Expr} (hprimary : l ≠ .primary)
    (hchain : n.loop? l = some (chain (n.at l.tighter) op? join))
    (hop : op? (.symbol mark) = some op) (hjoins : (Token.symbol mark).joins? = some l)
    (hwhole : ∀ f f', f.bare = e.bare → f'.bare = e'.bare → (join op f f').bare = whole.bare)
    (he : n.Arrives l us e) (he' : n.Rereads l.tighter us' e') :
    n.Arrives l (us ++ .symbol mark :: us') whole := by
  intro loop hloop vs Q hvs hQ
  rw [hchain] at hloop
  cases hloop
  rw [List.append_assoc]
  refine he _ hchain _ _ (Level.closes_of_some hjoins hprimary) ?_
  rintro f hf (_ | fuel) hfuel
  · cases hfuel
  refine gives_chain_turn hop rfl (he' vs hvs) ?_
  rintro f' _ ⟨hf', rfl⟩
  refine hQ _ (hwhole f f' hf hf') fuel ?_
  simp only [List.cons_append, List.length_append, List.length_cons] at hfuel
  omega

theorem Arrives.binary {op : BinaryOp} (he : n.Arrives op.level us e)
    (he' : n.Rereads op.level.tighter us' e') (span : Span) :
    n.Arrives op.level (us ++ .symbol op.mark :: us') (.binary op e e' span) := by
  obtain ⟨op?, hchain, hop⟩ := loop?_binary n op
  refine .joined op.level_ne hchain hop op.joins (fun f f' hf hf' => ?_) he he'
  rw [Expr.join, Expr.bare, Expr.bare, hf, hf']

theorem Arrives.logical {op : LogicalOp} (he : n.Arrives op.level us e)
    (he' : n.Rereads op.level.tighter us' e') (span : Span) :
    n.Arrives op.level (us ++ .symbol op.mark :: us') (.logical op e e' span) := by
  obtain ⟨op?, hchain, hop⟩ := loop?_logical n op
  refine .joined op.level_ne hchain hop op.joins (fun f f' hf hf' => ?_) he he'
  rw [Expr.joinLogical, Expr.bare, Expr.bare, hf, hf']

/-! ### Other operators -/

theorem Rereads.updateAfter (he : n.Rereads .callMember us e) (htarget : e.isTarget = true)
    (step : Step) (span : Span) :
    n.Rereads .postfixed (us ++ [.symbol step.mark]) (.update step .after e span) := by
  intro vs hvs
  show (postfixed n).Gives _ _
  unfold postfixed
  rw [List.append_assoc]
  have hstep : step? (.symbol step.mark) = some step := by cases step <;> rfl
  have hcloses : Level.callMember.Closes (.symbol step.mark) :=
    Level.closes_of_some step.joins (by decide)
  refine (he (.symbol step.mark :: vs) hcloses).bind ?_
  rintro f _ ⟨hf, rfl⟩
  apply Gives.current
  rw [Token.ahead_cons, hstep]
  refine Gives.advance rfl fun _ => ?_
  rw [updateOf, if_pos (isTarget_of_bare hf htarget)]
  exact .pure ⟨by rw [Expr.bare, Expr.bare, hf], rfl⟩

theorem Rereads.updateBefore
    (he : ∀ vs, Level.unary.Closes (Token.ahead vs) →
      n.operand.Gives (us ++ vs) fun e' rest => e'.bare = e.bare ∧ rest = vs)
    (htarget : e.isTarget = true) (step : Step) (span : Span) :
    n.Rereads .unary (.symbol step.mark :: us) (.update step .before e span) := by
  intro vs hvs
  show (unary n).Gives _ _
  unfold unary
  apply Gives.current
  have hstep : unaryOp? (.symbol step.mark) = none ∧ step? (.symbol step.mark) = some step := by
    cases step <;> exact ⟨rfl, rfl⟩
  rw [List.cons_append, Token.ahead_cons, hstep.1, hstep.2]
  refine Gives.advance rfl fun _ => (he vs hvs).bind ?_
  rintro f _ ⟨hf, rfl⟩
  rw [updateOf, if_pos (isTarget_of_bare hf htarget)]
  exact .pure ⟨by rw [Expr.bare, Expr.bare, hf], rfl⟩

theorem Rereads.unary
    (he : ∀ vs, Level.unary.Closes (Token.ahead vs) →
      n.operand.Gives (us ++ vs) fun e' rest => e'.bare = e.bare ∧ rest = vs)
    (op : UnaryOp) (span : Span) : n.Rereads .unary (op.token :: us) (.unary op e span) := by
  intro vs hvs
  show (Script.unary n).Gives _ _
  unfold Script.unary
  apply Gives.current
  have hop : unaryOp? op.token = some op := by cases op <;> rfl
  rw [List.cons_append, Token.ahead_cons, hop]
  refine Gives.advance (by cases op <;> rfl) fun _ => (he vs hvs).bind ?_
  rintro f _ ⟨hf, rfl⟩
  exact .pure ⟨by rw [Expr.bare, Expr.bare, hf], rfl⟩

/-- The last branch goes on as far as any expression, so an assignment must not follow either. -/
theorem Rereads.conditional (he : n.Rereads .disjunction us e) (he' : n.Expects us' e')
    (he'' : n.Expects us'' e'') (span : Span) :
    n.Rereads .assignment (us ++ .symbol .question :: us' ++ .symbol .colon :: us'')
      (.conditional e e' e'' span) := by
  intro vs hvs
  show (assignment n).Gives _ _
  unfold assignment Script.conditional
  rw [List.append_assoc, List.append_assoc, bind_assoc]
  have hquestion : Level.disjunction.Closes (.symbol .question) :=
    Level.closes_of_some (l := .conditional) rfl (by decide)
  refine (he (.symbol .question :: (us' ++ .symbol .colon :: (us'' ++ vs))) hquestion).bind ?_
  rintro f _ ⟨hf, rfl⟩
  rw [bind_assoc]
  refine Gives.skip ?_
  rw [if_pos rfl, bind_assoc]
  refine (he' (.symbol .colon :: (us'' ++ vs)) (Level.closes_of_none rfl)).bind ?_
  rintro f' _ ⟨hf', rfl⟩
  rw [bind_assoc]
  refine Gives.expect fun _ => ?_
  rw [bind_assoc]
  refine (he'' vs hvs).bind ?_
  rintro f'' _ ⟨hf'', rfl⟩
  rw [pure_bind]
  apply Gives.current
  rw [assignOp?_of_closes hvs]
  exact .pure ⟨by rw [Expr.bare, Expr.bare, hf, hf', hf''], rfl⟩

theorem Rereads.assign (he : n.Rereads .conditional us e) (htarget : e.isTarget = true)
    {op : Option BinaryOp} {mark : Symbol} (hop : assignMark? op = some mark)
    (he' : n.Expects us' e') (span : Span) :
    n.Rereads .assignment (us ++ .symbol mark :: us') (.assign op e e' span) := by
  intro vs hvs
  show (assignment n).Gives _ _
  unfold assignment
  rw [List.append_assoc]
  have hmark : assignOp? (.symbol mark) = some op := by
    unfold assignMark? at hop
    split at hop <;> cases hop <;> rfl
  have hcloses : Level.conditional.Closes (.symbol mark) :=
    Level.closes_of_some (joins_assignMark hop) (by decide)
  refine (he (.symbol mark :: (us' ++ vs)) hcloses).bind ?_
  rintro f _ ⟨hf, rfl⟩
  apply Gives.current
  rw [Token.ahead_cons, hmark]
  dsimp only
  rw [if_pos (isTarget_of_bare hf htarget)]
  refine Gives.advance rfl fun _ => (he' vs hvs).bind ?_
  rintro f' _ ⟨hf', rfl⟩
  exact .pure ⟨by rw [Expr.bare, Expr.bare, hf, hf'], rfl⟩

/-! ### Primary expressions -/

theorem Rereads.grouped (he : n.Expects us e) :
    n.Rereads .primary (.symbol .leftParen :: us ++ [.symbol .rightParen]) e := by
  intro vs _
  show (primary n).Gives _ _
  unfold primary
  rw [List.cons_append, List.cons_append, List.append_assoc]
  refine Gives.here fun span => Gives.current (Gives.advance rfl fun _ => ?_)
  refine (he ([.symbol .rightParen] ++ vs) (Level.closes_of_none rfl)).bind ?_
  rintro f _ ⟨hf, rfl⟩
  exact Gives.expect fun _ => .pure ⟨hf, rfl⟩

theorem Rereads.leaf {t : Token} {span : Span} (ht : t.leaf? span = some e) :
    n.Rereads .primary [t] e := by
  intro vs _
  show (primary n).Gives (t :: vs) _
  unfold primary
  refine Gives.here fun span => Gives.current ?_
  unfold Token.leaf? at ht
  split at ht <;> cases ht
  all_goals exact Gives.advance rfl fun _ => .pure ⟨by rw [Expr.bare, Expr.bare], rfl⟩

theorem Rereads.array {es : List Expr} {spell : Expr → Spelling}
    (hes : ∀ e ∈ es, n.Expects (spell e).tokens e)
    (hbegins : ∀ e ∈ es, ∃ t rest, (spell e).tokens = t :: rest ∧ t.opensExpression = true)
    (span : Span) :
    n.Rereads .primary (.symbol .leftBracket :: (Spelling.commas (es.map spell)).tokens ++
      [.symbol .rightBracket]) (.array es span) := by
  intro vs _
  show (primary n).Gives _ _
  unfold primary
  rw [List.cons_append, List.cons_append, List.append_assoc]
  refine Gives.here fun span => Gives.current (Gives.advance rfl fun _ => ?_)
  have hcomma : Symbol.rightBracket ≠ .comma := by decide
  refine (gives_expressions hcomma rfl rfl hes hbegins vs).bind ?_
  rintro r _ ⟨hr, rfl⟩
  exact .pure ⟨by simp only [Expr.bare, hr], rfl⟩

theorem eq_of_isVariable {name : String} (h : e.isVariable name = true) :
    ∃ span, e = .identifier name span := by
  cases e with
  | identifier other span => exact ⟨span, congrArg (Expr.identifier · span) (eq_of_beq h)⟩
  | _ => cases h

theorem gives_property {p : String × Expr}
    (hp : ¬ p.2.isVariable p.1 = true → n.Expects (p.2.layout false).tokens p.2) {vs : List Token}
    (hvs : Token.ahead vs = .symbol .comma ∨ Token.ahead vs = .symbol .rightBrace) :
    (property n).Gives ((propertyLayout p).tokens ++ vs) fun r rest =>
      (r.1, r.2.bare) = (p.1, p.2.bare) ∧ rest = vs := by
  obtain ⟨key, e⟩ := p
  unfold property propertyLayout
  by_cases hvariable : e.isVariable key = true
  · obtain ⟨span, rfl⟩ := eq_of_isVariable hvariable
    rw [if_pos hvariable]
    show Gives _ (.identifier key :: vs) _
    refine Gives.here fun span => Gives.current (Gives.advance rfl fun _ => ?_)
    refine Gives.isAt (Gives.isAt ?_)
    have hends : ((Token.ahead vs).isSymbol .comma || (Token.ahead vs).isSymbol .rightBrace) =
        true := by
      obtain h | h := hvs <;> rw [h] <;> rfl
    rw [if_pos hends]
    exact .pure ⟨by rw [Expr.bare, Expr.bare], rfl⟩
  · rw [if_neg hvariable]
    refine Gives.here fun span => Gives.current (Gives.advance rfl fun _ => ?_)
    refine Gives.expect fun _ => (hp hvariable vs (Level.closes_of_none ?_)).bind ?_
    · obtain h | h := hvs <;> rw [h] <;> rfl
    · rintro f _ ⟨hf, rfl⟩
      exact .pure ⟨by rw [hf], rfl⟩

theorem Rereads.object {ps : List (String × Expr)}
    (hps : ∀ p ∈ ps, ¬ p.2.isVariable p.1 = true → n.Expects (p.2.layout false).tokens p.2)
    (span : Span) :
    n.Rereads .primary ((Expr.object ps span).layout false).tokens (.object ps span) := by
  intro vs _
  show (primary n).Gives _ _
  unfold primary
  rw [Expr.layout_object, Spelling.tokens_append, Spelling.tokens_append, List.append_assoc,
    List.append_assoc]
  refine Gives.here fun span => Gives.current (Gives.advance rfl fun _ => ?_)
  have hcomma : Symbol.rightBrace ≠ .comma := by decide
  have hbegins (p : String × Expr) (_ : p ∈ ps) (vs : List Token) :
      (Token.ahead ((propertyLayout p).tokens ++ vs)).isSymbol .rightBrace = false := by
    unfold propertyLayout
    split <;> rfl
  refine (gives_listUntil hcomma vs ps hbegins fun p hp vs hvs =>
    gives_property (hps p hp) hvs).bind ?_
  rintro r _ ⟨hr, rfl⟩
  refine .pure ⟨?_, rfl⟩
  rw [Expr.bare, Expr.bare]
  exact congrArg (Expr.object · default) hr

/-- The statement one level of nesting further in is read off its spelling, if what follows does not
go on with it. -/
def ExpectsStatement (n : Nested) (l : Bool) (s : Stmt) : Prop :=
  ∀ vs, s.Closes (Token.ahead vs) → (n.statement l).Gives ((s.layout true).tokens ++ vs)
    fun s' rest => s'.bare = s.bare ∧ rest = vs

section Functions

variable {name : Option String} {params : List String} {body : List Stmt}

/-- The tokens of the parameters and the body of a function. -/
def restTokens (params : List String) (body : List Stmt) : List Token :=
  .symbol .leftParen :: (Spelling.commas (params.map fun p => .of [.identifier p])).tokens ++
    .symbol .rightParen :: (blockLayout body).tokens

theorem tokens_layout_function (span : Span) :
    (FunctionDef.mk name params body span).layout.tokens =
      .keyword .function :: (name.toList.map .identifier ++ restTokens params body) := by
  rw [FunctionDef.layout]
  simp only [Spelling.tokens_append, Spelling.tokens_word, Spelling.tokens_of,
    Spelling.tokens_mark, restTokens, List.append_assoc, List.cons_append, List.nil_append]
  rfl

theorem gives_functionRest (hbody : ∀ s ∈ body, n.ExpectsStatement false s) (start span : Span)
    (vs : List Token) :
    (functionRest n name start).Gives (restTokens params body ++ vs)
      fun f rest => f.bare = (FunctionDef.mk name params body span).bare ∧ rest = vs := by
  unfold functionRest restTokens
  rw [List.append_assoc]
  refine Gives.expect fun _ => ?_
  have hcomma : Symbol.rightParen ≠ .comma := by decide
  have hparam (p : String) (_ : p ∈ params) (vs : List Token)
      (_ : Token.ahead vs = .symbol .comma ∨ Token.ahead vs = .symbol .rightParen) :
      (Prod.fst <$> identifier).Gives ((Spelling.of [.identifier p]).tokens ++ vs)
        fun p' rest => id p' = id p ∧ rest = vs := by
    rw [map_eq_pure_bind]
    exact Gives.identifier fun _ => .pure ⟨rfl, rfl⟩
  refine (gives_listUntil hcomma ((blockLayout body).tokens ++ vs) params (fun _ _ _ => rfl)
    hparam).bind ?_
  rintro r _ ⟨hr, rfl⟩
  rw [List.map_id, List.map_id] at hr
  refine (gives_block hbody vs).bind ?_
  rintro b _ ⟨hb, rfl⟩
  exact .pure ⟨by simp only [FunctionDef.bare, hr, hb], rfl⟩

theorem gives_functionExpression (name : Option String) (params : List String)
    (hbody : ∀ s ∈ body, n.ExpectsStatement false s) (span : Span) (vs : List Token) :
    (functionExpression n).Gives ((FunctionDef.mk name params body span).layout.tokens ++ vs)
      fun f rest => f.bare = (FunctionDef.mk name params body span).bare ∧ rest = vs := by
  unfold functionExpression
  rw [tokens_layout_function, List.cons_append, List.append_assoc]
  refine Gives.advance rfl fun _ => Gives.current ?_
  cases name with
  | none => exact gives_functionRest hbody _ span vs
  | some name => exact Gives.advance rfl fun _ => gives_functionRest hbody _ span vs

theorem gives_functionDeclaration (params : List String) (hname : name.isSome = true)
    (hbody : ∀ s ∈ body, n.ExpectsStatement false s) (span : Span) (vs : List Token) :
    (functionDeclaration n).Gives ((FunctionDef.mk name params body span).layout.tokens ++ vs)
      fun f rest => f.bare = (FunctionDef.mk name params body span).bare ∧ rest = vs := by
  unfold functionDeclaration
  rw [tokens_layout_function, List.cons_append, List.append_assoc]
  refine Gives.advance rfl fun _ => ?_
  cases name with
  | none => cases hname
  | some name => exact Gives.identifier fun _ => gives_functionRest hbody _ span vs

theorem Rereads.function (hbody : ∀ s ∈ body, n.ExpectsStatement false s) (span : Span) :
    n.Rereads .primary (FunctionDef.mk name params body span).layout.tokens
      (.function (.mk name params body span)) := by
  intro vs _
  show (primary n).Gives _ _
  have hread := gives_functionExpression name params hbody span vs
  unfold primary
  rw [tokens_layout_function, List.cons_append] at hread ⊢
  refine Gives.here fun _ => Gives.current (hread.bind ?_)
  rintro f _ ⟨hf, rfl⟩
  exact .pure ⟨by rw [Expr.bare, Expr.bare, hf], rfl⟩

end Functions

end Nested

end ModuleLoader.Script
