import ModuleLoader.Proofs.Grammar
import ModuleLoader.Proofs.Readings

/-! Expressions are read as the grammar derives them: each reading takes the tokens of its tree, all
of them and no others, given that the readings one level of nesting further in do. -/
namespace ModuleLoader.Script

open Reading

/-- The readings one level of nesting further in read what the grammar derives. -/
structure Nested.Sound (n : Nested) : Prop where
  expression : n.expression.Reads (Derives (.expression .assignment))
  operand : n.operand.Reads (Derives (.expression .unary))
  statement : ∀ inLoop, (n.statement inLoop).Reads (Derives (.statement inLoop))

section Repetitions

variable (c : Category) {item : Reading c.Tree} {close : Symbol}

theorem reads_itemsUntil (h : item.Reads (Derives c)) (fuel : Nat) :
    (itemsUntil close item fuel).Reads (Derives (.list c)) := by
  induction fuel with
  | zero => exact fun ts => .pure .listNil
  | succ fuel ih =>
    intro ts
    unfold itemsUntil
    apply Yields.isAt
    split
    · exact .pure .listNil
    · apply Yields.bind (h ts)
      intro us x rest hx
      apply Yields.skip
      · intro s rest
        apply Yields.bind (ih rest)
        intro vs xs rest hxs
        exact .pure (by simpa using Derives.listCons hx hxs)
      · exact .pure (by simpa using Derives.listLast hx)

theorem reads_listUntil (h : item.Reads (Derives c)) :
    (listUntil close item).Reads fun us r =>
      ∃ vs, us = vs ++ [close.at r.2] ∧ Derives (.list c) vs r.1 := by
  intro ts
  unfold listUntil
  apply Yields.get
  apply Yields.bind (reads_itemsUntil c h _ _)
  intro us xs rest hxs
  apply Yields.expect
  intro s rest
  exact .pure ⟨us, by simp, hxs⟩

theorem reads_statementsUntilBrace {statement : Reading Stmt} {l : Bool}
    (h : statement.Reads (Derives (.statement l))) (fuel : Nat) :
    (statementsUntilBrace statement fuel).Reads (Derives (.many (.statement l))) := by
  induction fuel with
  | zero => exact fun ts => .pure .manyNil
  | succ fuel ih =>
    intro ts
    unfold statementsUntilBrace
    apply Yields.current
    split
    · exact .pure .manyNil
    · exact .fail
    · apply Yields.bind (h ts)
      intro us x rest hx
      apply Yields.bind (ih rest)
      intro vs xs rest hxs
      exact .pure (by simpa using Derives.manyCons hx hxs)

theorem reads_block {statement : Reading Stmt} {l : Bool}
    (h : statement.Reads (Derives (.statement l))) :
    (block statement).Reads (Derives (.block l)) := by
  intro ts
  unfold block
  apply Yields.expect
  intro s rest
  apply Yields.get
  apply Yields.bind (reads_statementsUntilBrace h _ _)
  intro us body rest hbody
  apply Yields.expect
  intro s' rest
  exact .pure (by simpa using Derives.block hbody)

end Repetitions

theorem Token.isFinish_eq_false {t : Token} {name : String} (h : t.key? = some name) :
    t.isFinish = false := by
  cases t with
  | finish => cases h
  | _ => rfl

theorem Token.key?_of_asName? {t : Token} {name : String} (h : t.asName? = some name) :
    t.key? = some name := by
  cases t with
  | identifier | keyword => exact h
  | _ => cases h

theorem reads_memberName :
    memberName.Reads fun us r => ∃ t, us = [⟨t, r.2⟩] ∧ t.asName? = some r.1 := by
  intro ts
  unfold memberName
  apply Yields.current
  split
  · rename_i name hname
    apply Yields.advance rfl (Token.isFinish_eq_false (Token.key?_of_asName? hname))
    exact .pure ⟨_, rfl, hname⟩
  · exact .fail

theorem eq_of_step? {t : Token} {step : Step} (h : step? t = some step) :
    t = .symbol step.mark := by
  unfold step? at h
  split at h <;> cases h <;> rfl

theorem eq_of_unaryOp? {t : Token} {op : UnaryOp} (h : unaryOp? t = some op) : t = op.token := by
  unfold unaryOp? at h
  split at h <;> cases h <;> rfl

theorem eq_of_multiplicativeOp? (t : Token) (op : BinaryOp) (h : multiplicativeOp? t = some op) :
    t = .symbol op.mark ∧ op.level = .multiplicative := by
  unfold multiplicativeOp? at h
  split at h <;> cases h <;> exact ⟨rfl, rfl⟩

theorem eq_of_additiveOp? (t : Token) (op : BinaryOp) (h : additiveOp? t = some op) :
    t = .symbol op.mark ∧ op.level = .additive := by
  unfold additiveOp? at h
  split at h <;> cases h <;> exact ⟨rfl, rfl⟩

theorem eq_of_relationalOp? (t : Token) (op : BinaryOp) (h : relationalOp? t = some op) :
    t = .symbol op.mark ∧ op.level = .relational := by
  unfold relationalOp? at h
  split at h <;> cases h <;> exact ⟨rfl, rfl⟩

theorem eq_of_equalityOp? (t : Token) (op : BinaryOp) (h : equalityOp? t = some op) :
    t = .symbol op.mark ∧ op.level = .equality := by
  unfold equalityOp? at h
  split at h <;> cases h <;> exact ⟨rfl, rfl⟩

theorem eq_of_andOp? (t : Token) (op : LogicalOp) (h : andOp? t = some op) :
    t = .symbol op.mark ∧ op.level = .conjunction := by
  unfold andOp? at h
  split at h
  · cases h
    exact ⟨rfl, rfl⟩
  · cases h

theorem eq_of_orOp? (t : Token) (op : LogicalOp) (h : orOp? t = some op) :
    t = .symbol op.mark ∧ op.level = .disjunction := by
  unfold orOp? at h
  split at h <;> cases h <;> exact ⟨rfl, rfl⟩

theorem eq_of_assignOp? {t : Token} {op : Option BinaryOp} (h : assignOp? t = some op) :
    ∃ mark, t = .symbol mark ∧ assignMark? op = some mark := by
  unfold assignOp? at h
  split at h <;> cases h <;> exact ⟨_, rfl, rfl⟩

section Levels

variable {operand : Reading Expr} {level : Level}

theorem reads_binary {op? : Token → Option BinaryOp}
    (hop : ∀ t op, op? t = some op → t = .symbol op.mark ∧ op.level = level)
    (h : operand.Reads (Derives (.expression level.tighter))) :
    (leftAssociative operand op? Expr.join).Reads (Derives (.expression level)) := by
  apply Reads.leftAssociative hop h (fun us e he => .up he)
  rintro op s us vs e e' rfl he he'
  exact .binary op he he'

theorem reads_logical {op? : Token → Option LogicalOp}
    (hop : ∀ t op, op? t = some op → t = .symbol op.mark ∧ op.level = level)
    (h : operand.Reads (Derives (.expression level.tighter))) :
    (leftAssociative operand op? Expr.joinLogical).Reads (Derives (.expression level)) := by
  apply Reads.leftAssociative hop h (fun us e he => .up he)
  rintro op s us vs e e' rfl he he'
  exact .logical op he he'

end Levels

namespace Nested.Sound

variable {n : Nested}

theorem functionRest (hn : n.Sound) {us : Tokens} {name : Option String} (s : Span)
    (hname : Derives (.option .name) us name) :
    (functionRest n name s).Reads fun vs f =>
      Derives .function (Keyword.function.at s :: us ++ vs) f ∧ f.name = name := by
  intro ts
  unfold Script.functionRest
  apply Yields.expect
  intro s₁ rest
  have hitem : (Prod.fst <$> identifier).Reads (Derives .name) := by
    intro ts
    rw [map_eq_pure_bind]
    apply Yields.identifier
    intro name s rest
    exact .pure .name
  apply Yields.bind (reads_listUntil .name hitem _)
  rintro _ ⟨params, s₂⟩ rest ⟨vs, rfl, hparams⟩
  apply Yields.bind (reads_block (hn.statement false) _)
  intro ws b rest hb
  exact .pure ⟨by simpa using Derives.function hname hparams hb, rfl⟩

theorem functionExpression (hn : n.Sound) {ts : Tokens} (hts : ts.current = .keyword .function) :
    (functionExpression n).Yields ts (Derives .function) := by
  unfold Script.functionExpression
  apply Yields.advance hts rfl
  apply Yields.current
  split
  · rename_i name hc
    apply Yields.advance hc rfl
    exact (hn.functionRest _ (.present .name) _).imp fun us f hf => hf.1
  · exact (hn.functionRest _ .absent _).imp fun us f hf => hf.1

theorem functionDeclaration (hn : n.Sound) {ts : Tokens} (hts : ts.current = .keyword .function) :
    (functionDeclaration n).Yields ts fun us f => Derives .function us f ∧ f.name.isSome := by
  unfold Script.functionDeclaration
  apply Yields.advance hts rfl
  apply Yields.identifier
  intro name s rest
  apply (hn.functionRest ts.span (.present .name) rest).imp
  intro us f hf
  exact ⟨hf.1, by rw [hf.2]; rfl⟩

theorem property (hn : n.Sound) : (property n).Reads (Derives .property) := by
  intro ts
  have hkeyed : ∀ key, ts.current.key? = some key →
      (propertyValue n key).Yields ts (Derives .property) := by
    intro key hkey
    unfold propertyValue
    apply Yields.advance rfl (Token.isFinish_eq_false hkey)
    apply Yields.expect
    intro s rest
    apply Yields.bind (hn.expression rest)
    intro us e rest he
    exact .pure (by simpa using Derives.keyed hkey he)
  unfold Script.property
  apply Yields.here
  apply Yields.current
  split
  · rename_i hc
    exact hkeyed _ (by rw [hc]; rfl)
  · rename_i hc
    exact hkeyed _ (by rw [hc]; rfl)
  · rename_i hc
    exact hkeyed _ (by rw [hc]; rfl)
  · rename_i name hc
    apply Yields.advance hc rfl
    apply Yields.isAt
    apply Yields.isAt
    split
    · exact .pure (by simpa using Derives.shorthand)
    · apply Yields.expect
      intro s rest
      apply Yields.bind (hn.expression rest)
      intro us e rest he
      exact .pure (by simpa using Derives.keyed rfl he)
  · exact .fail

theorem primary (hn : n.Sound) : (primary n).Reads (Derives (.expression .primary)) := by
  intro ts
  unfold Script.primary
  apply Yields.here
  apply Yields.current
  split
  case h_8 hc =>
    apply Yields.advance hc rfl
    apply Yields.bind (hn.expression _)
    intro us e rest he
    apply Yields.expect
    intro s rest
    exact .pure (by simpa using Derives.group he)
  case h_9 hc =>
    apply Yields.advance hc rfl
    apply Yields.bind (reads_listUntil (.expression .assignment) hn.expression _)
    rintro _ ⟨items, s⟩ rest ⟨us, rfl, hitems⟩
    exact .pure (by simpa using Derives.array hitems)
  case h_10 hc =>
    apply Yields.advance hc rfl
    apply Yields.bind (reads_listUntil .property hn.property _)
    rintro _ ⟨properties, s⟩ rest ⟨us, rfl, hproperties⟩
    exact .pure (by simpa using Derives.object hproperties)
  case h_11 hc =>
    apply Yields.bind (hn.functionExpression hc)
    intro us f rest hf
    exact .pure (by simpa using Derives.functionExpression hf)
  case h_12 => exact .fail
  case h_13 => exact .fail
  all_goals
    rename_i hc
    apply Yields.advance hc rfl
    exact .pure (.leaf rfl)

theorem suffixes (hn : n.Sound) (fuel : Nat) : ∀ us e ts, Derives (.expression .callMember) us e →
    (suffixes n fuel e).Yields ts fun vs e' => Derives (.expression .callMember) (us ++ vs) e' := by
  induction fuel with
  | zero =>
    intro us e ts he
    exact .pure (by simpa using he)
  | succ fuel ih =>
    intro us e ts he
    unfold Script.suffixes
    apply Yields.current
    split
    · rename_i hc
      apply Yields.advance hc rfl
      apply Yields.bind (reads_memberName _)
      rintro _ ⟨name, s⟩ rest ⟨t, rfl, ht⟩
      exact (ih (us ++ [Symbol.dot.at ts.span, ⟨t, s⟩]) _ rest (he.member ht)).imp (by simp)
    · rename_i hc
      apply Yields.advance hc rfl
      apply Yields.bind (hn.expression _)
      intro vs i rest hi
      apply Yields.expect
      intro s rest
      exact (ih (us ++ Symbol.leftBracket.at ts.span :: vs ++ [Symbol.rightBracket.at s]) _ rest
        (he.index hi)).imp (by simp)
    · rename_i hc
      apply Yields.advance hc rfl
      apply Yields.bind (reads_listUntil (.expression .assignment) hn.expression _)
      rintro _ ⟨args, s⟩ rest ⟨vs, rfl, hargs⟩
      exact (ih (us ++ Symbol.leftParen.at ts.span :: vs ++ [Symbol.rightParen.at s]) _ rest
        (he.call hargs)).imp (by simp)
    · exact .pure (by simpa using he)

theorem callMember (hn : n.Sound) :
    (callMember n).Reads (Derives (.expression .callMember)) := by
  intro ts
  unfold Script.callMember
  apply Yields.bind (hn.primary ts)
  intro us e rest he
  have he' : Derives (.expression .callMember) us e := .up he
  apply Yields.current
  split
  · apply Yields.get
    exact hn.suffixes _ us e rest he'
  · exact .pure (by simpa using he')

theorem postfixed (hn : n.Sound) : (postfixed n).Reads (Derives (.expression .postfixed)) := by
  intro ts
  unfold Script.postfixed
  apply Yields.bind (hn.callMember ts)
  intro us e rest he
  apply Yields.current
  split
  · rename_i step hstep
    apply Yields.advance (eq_of_step? hstep) rfl
    unfold updateOf
    split
    · rename_i htarget
      exact .pure (.updateAfter step he htarget)
    · exact .failAt
  · exact .pure (by simpa using Derives.up (l := .postfixed) he)

theorem unary (hn : n.Sound) : (unary n).Reads (Derives (.expression .unary)) := by
  intro ts
  unfold Script.unary
  apply Yields.current
  split
  · rename_i op hop
    apply Yields.advance (eq_of_unaryOp? hop) (by cases op <;> rfl)
    apply Yields.bind (hn.operand _)
    intro us e rest he
    exact .pure (by simpa using Derives.unary op he)
  · rename_i step _ hstep
    apply Yields.advance (eq_of_step? hstep) rfl
    apply Yields.bind (hn.operand _)
    intro us e rest he
    unfold updateOf
    split
    · rename_i htarget
      exact .pure (by simpa using Derives.updateBefore step he htarget)
    · exact .failAt
  · exact (hn.postfixed ts).imp fun us e he => .up he

theorem multiplicative (hn : n.Sound) :
    (multiplicative n).Reads (Derives (.expression .multiplicative)) :=
  reads_binary eq_of_multiplicativeOp? hn.unary

theorem additive (hn : n.Sound) : (additive n).Reads (Derives (.expression .additive)) :=
  reads_binary eq_of_additiveOp? hn.multiplicative

theorem relational (hn : n.Sound) : (relational n).Reads (Derives (.expression .relational)) :=
  reads_binary eq_of_relationalOp? hn.additive

theorem equality (hn : n.Sound) : (equality n).Reads (Derives (.expression .equality)) :=
  reads_binary eq_of_equalityOp? hn.relational

theorem conjunction (hn : n.Sound) : (conjunction n).Reads (Derives (.expression .conjunction)) :=
  reads_logical eq_of_andOp? hn.equality

theorem disjunction (hn : n.Sound) : (disjunction n).Reads (Derives (.expression .disjunction)) :=
  reads_logical eq_of_orOp? hn.conjunction

theorem conditional (hn : n.Sound) :
    (conditional n).Reads (Derives (.expression .conditional)) := by
  intro ts
  unfold Script.conditional
  apply Yields.bind (hn.disjunction ts)
  intro us test rest htest
  apply Yields.skip
  · intro s rest
    apply Yields.bind (hn.expression rest)
    intro vs e rest he
    apply Yields.expect
    intro s' rest
    apply Yields.bind (hn.expression rest)
    intro ws e' rest he'
    exact .pure (by simpa using Derives.conditional htest he he')
  · exact .pure (by simpa using Derives.up (l := .conditional) htest)

theorem assignment (hn : n.Sound) :
    (assignment n).Reads (Derives (.expression .assignment)) := by
  intro ts
  unfold Script.assignment
  apply Yields.bind (hn.conditional ts)
  intro us target rest htarget
  apply Yields.current
  split
  · exact .pure (by simpa using Derives.up (l := .assignment) htarget)
  · rename_i op hop
    obtain ⟨mark, hmark, hop⟩ := eq_of_assignOp? hop
    split
    · rename_i hplace
      apply Yields.advance hmark rfl
      apply Yields.bind (hn.expression _)
      intro vs e rest he
      exact .pure (by simpa using Derives.assign htarget hplace hop he)
    · exact .failAt

end Nested.Sound
end ModuleLoader.Script
