import ModuleLoader.Proofs.Expressions

/-! Statements and whole scripts are read as the grammar derives them. -/
namespace ModuleLoader.Script

open Reading

theorem eq_of_declarationWord? {t : Token} {kind : DeclarationWord}
    (h : declarationWord? t = some kind) : t = .keyword kind.word := by
  unfold declarationWord? at h
  split at h <;> cases h <;> rfl

theorem reads_catchParam : catchParam.Reads (Derives (.option .binding)) := by
  intro ts
  unfold catchParam
  apply Yields.skip
  · intro s rest
    apply Yields.identifier
    intro name s' rest
    apply Yields.expect
    intro s'' rest
    exact .pure (.present .binding)
  · exact .pure .absent

theorem yields_ended {s : Reading Stmt} {ts : Tokens} {l : Bool}
    (h : s.Yields ts (Derives (.simple l))) : (ended s).Yields ts (Derives (.statement l)) := by
  unfold ended
  apply Yields.bind h
  intro us d rest hd
  apply Yields.skip
  · intro s rest
    exact .pure (.ended hd)
  · exact .pure (by simpa using Derives.unended hd)

namespace Nested.Sound

variable {n : Nested} {ts : Tokens}

theorem declarator (hn : n.Sound) (kind : DeclarationWord) :
    (declarator n kind).Reads (Derives (.declarator kind)) := by
  intro ts
  unfold Script.declarator
  apply Yields.identifier
  intro name s rest
  apply Yields.skip
  · intro s' rest
    apply Yields.bind (hn.expression rest)
    intro us e rest he
    exact .pure (by simpa using Derives.initialized he)
  · rw [if_neg Bool.false_ne_true]
    split
    · exact .failAt
    · rename_i hkind
      exact .pure (.uninitialized hkind)

theorem declarators (hn : n.Sound) (kind : DeclarationWord) (fuel : Nat) :
    (declarators n kind fuel).Reads (Derives (.declarators kind)) := by
  induction fuel with
  | zero => exact fun ts => .fail
  | succ fuel ih =>
    intro ts
    unfold Script.declarators
    apply Yields.bind (hn.declarator kind ts)
    intro us d rest hd
    apply Yields.skip
    · intro s rest
      apply Yields.bind (ih rest)
      intro vs ds rest hds
      exact .pure (by simpa using Derives.nextDeclarator hd hds)
    · exact .pure (by simpa using Derives.lastDeclarator hd)

theorem declaration (hn : n.Sound) {kind : DeclarationWord}
    (hts : ts.current = .keyword kind.word) :
    (declaration n kind).Yields ts (Derives .declaration) := by
  unfold Script.declaration
  apply Yields.advance hts rfl
  apply Yields.get
  apply Yields.bind (hn.declarators kind _ _)
  intro us ds rest hds
  exact .pure (by simpa using Derives.declaration hds)

theorem parenthesized (hn : n.Sound) : (parenthesized n).Reads fun us e => e.Grouped us := by
  intro ts
  unfold Script.parenthesized
  apply Yields.expect
  intro s rest
  apply Yields.bind (hn.expression rest)
  intro us e rest he
  apply Yields.expect
  intro s' rest
  exact .pure ⟨s, us, s', by simp, he⟩

theorem ifStatement (hn : n.Sound) (l : Bool) (hts : ts.current = .keyword .«if») :
    (ifStatement n l).Yields ts (Derives (.statement l)) := by
  unfold Script.ifStatement
  apply Yields.advance hts rfl
  apply Yields.bind (hn.parenthesized _)
  rintro _ e rest ⟨s, us, s', rfl, he⟩
  apply Yields.bind (hn.statement l rest)
  intro vs d rest hd
  apply Yields.skipWord
  · intro s'' rest
    apply Yields.bind (hn.statement l rest)
    intro ws d' rest hd'
    exact .pure (by simpa using Derives.if he hd (.present (.alternative hd')))
  · exact .pure (by simpa using Derives.if he hd .absent)

theorem whileStatement (hn : n.Sound) (l : Bool) (hts : ts.current = .keyword .«while») :
    (whileStatement n).Yields ts (Derives (.statement l)) := by
  unfold Script.whileStatement
  apply Yields.advance hts rfl
  apply Yields.bind (hn.parenthesized _)
  rintro _ e rest ⟨s, us, s', rfl, he⟩
  apply Yields.bind (hn.statement true rest)
  intro vs d rest hd
  exact .pure (by simpa using Derives.while he hd)

theorem forInit (hn : n.Sound) : (forInit n).Reads (Derives (.option .opening)) := by
  intro ts
  unfold Script.forInit
  apply Yields.current
  split
  · rename_i kind hkind
    rw [map_eq_pure_bind]
    apply Yields.bind (hn.declaration (eq_of_declarationWord? hkind))
    intro us d rest hd
    exact .pure (by simpa using Derives.present (.openingDeclaration hd))
  · split
    · exact .pure .absent
    · apply Yields.bind (hn.expression ts)
      intro us e rest he
      exact .pure (by simpa using Derives.present (.openingExpression he))

theorem expressionUnless (hn : n.Sound) (mark : Symbol) :
    (expressionUnless n mark).Reads (Derives (.option (.expression .assignment))) := by
  intro ts
  unfold Script.expressionUnless
  apply Yields.isAt
  split
  · exact .pure .absent
  · apply Yields.bind (hn.expression ts)
    intro us e rest he
    exact .pure (by simpa using Derives.present he)

theorem forStatement (hn : n.Sound) (l : Bool) (hts : ts.current = .keyword .«for») :
    (forStatement n).Yields ts (Derives (.statement l)) := by
  unfold Script.forStatement
  apply Yields.advance hts rfl
  apply Yields.expect
  intro s₁ rest
  apply Yields.bind (hn.forInit rest)
  intro us init rest hinit
  apply Yields.expect
  intro s₂ rest
  apply Yields.bind (hn.expressionUnless .semicolon rest)
  intro vs e rest he
  apply Yields.expect
  intro s₃ rest
  apply Yields.bind (hn.expressionUnless .rightParen rest)
  intro ws e' rest he'
  apply Yields.expect
  intro s₄ rest
  apply Yields.bind (hn.statement true rest)
  intro xs d rest hd
  exact .pure (by simpa using Derives.for hinit he he' hd)

theorem catchClause (hn : n.Sound) (l : Bool) :
    (catchClause n l).Reads fun us r => ∃ h : Option (Option String × List Stmt × Span),
      Derives (.option (.handler l)) us h ∧ r = (h.bind Prod.fst, h.map Prod.snd) := by
  intro ts
  unfold Script.catchClause
  apply Yields.skipWord
  · intro s rest
    apply Yields.bind (reads_catchParam rest)
    intro us param rest hparam
    apply Yields.bind (reads_block (hn.statement l) rest)
    intro vs b rest hb
    exact .pure ⟨some (param, b), by simpa using Derives.present (.handler hparam hb), rfl⟩
  · exact .pure ⟨none, .absent, rfl⟩

theorem finallyClause (hn : n.Sound) (l : Bool) :
    (finallyClause n l).Reads (Derives (.option (.finalizer l))) := by
  intro ts
  unfold Script.finallyClause
  apply Yields.skipWord
  · intro s rest
    apply Yields.bind (reads_block (hn.statement l) rest)
    intro us b rest hb
    exact .pure (by simpa using Derives.present (.finalizer hb))
  · exact .pure .absent

theorem tryStatement (hn : n.Sound) (l : Bool) (hts : ts.current = .keyword .«try») :
    (tryStatement n l).Yields ts (Derives (.statement l)) := by
  unfold Script.tryStatement
  apply Yields.advance hts rfl
  apply Yields.bind (reads_block (hn.statement l) _)
  intro us b rest hb
  apply Yields.bind (hn.catchClause l rest)
  rintro vs r rest ⟨h, hh, rfl⟩
  apply Yields.bind (hn.finallyClause l rest)
  intro ws f rest hf
  have hderives : (h.isSome || f.isSome) → Derives (.statement l)
      (Keyword.try.at ts.span :: (us ++ (vs ++ ws))) (.try b.1 (h.bind Prod.fst)
        (h.map fun h => h.2.1) (f.map Prod.fst)
        (ts.span.merge (((f.map Prod.snd).or (h.map fun h => h.2.2)).getD b.2))) := by
    intro hsome
    simpa using Derives.try hb hh hf hsome
  cases h with
  | none =>
    cases f with
    | none => exact .fail
    | some f => exact .pure (by simpa using hderives rfl)
  | some h =>
    cases f with
    | none => exact .pure (by simpa using hderives rfl)
    | some f => exact .pure (by simpa using hderives rfl)

theorem returnStatement (hn : n.Sound) (l : Bool) (hts : ts.current = .keyword .«return») :
    (returnStatement n).Yields ts (Derives (.simple l)) := by
  unfold Script.returnStatement
  apply Yields.advance hts rfl
  apply Yields.current
  split
  · apply Yields.bind (hn.expression _)
    intro us e rest he
    exact .pure (by simpa using Derives.return (.present he))
  · exact .pure (.return .absent)

theorem throwStatement (hn : n.Sound) (l : Bool) (hts : ts.current = .keyword .throw) :
    (throwStatement n).Yields ts (Derives (.simple l)) := by
  unfold Script.throwStatement
  apply Yields.advance hts rfl
  apply Yields.bind (hn.expression _)
  intro us e rest he
  exact .pure (by simpa using Derives.throw he)

theorem expressionStatement (hn : n.Sound) (l : Bool) (hts : ts.current.opensStatement = false) :
    (Stmt.expression <$> n.expression).Yields ts (Derives (.simple l)) := by
  rw [map_eq_pure_bind]
  apply Yields.bind_split (hn.expression ts)
  rintro us e rest rfl _ he
  have hopens : us.current.opensStatement = false := by
    cases us with
    | nil => rfl
    | cons t us => exact hts
  exact .pure (by simpa using Derives.simpleExpression he hopens)

theorem anyStatement (hn : n.Sound) (l : Bool) :
    (anyStatement n l).Reads (Derives (.statement l)) := by
  intro ts
  have hdeclaration : ∀ kind, ts.current = .keyword (DeclarationWord.word kind) →
      (ended (Script.declaration n kind)).Yields ts (Derives (.statement l)) := fun kind hc =>
    yields_ended ((hn.declaration hc).imp fun us d hd => .simpleDeclaration hd)
  have hexit : ∀ word make, ts.current = .keyword word →
      (∀ s, Derives (.simple true) [⟨.keyword word, s⟩] (make s)) →
      (ended (exitStatement word make l)).Yields ts (Derives (.statement l)) := by
    intro word make hc hmake
    apply yields_ended
    unfold exitStatement
    split
    · rename_i hl
      subst hl
      apply Yields.advance hc rfl
      exact .pure (hmake ts.span)
    · exact .fail
  unfold Script.anyStatement
  apply Yields.current
  split
  case h_1 hc => exact hdeclaration .«let» hc
  case h_2 hc => exact hdeclaration .«const» hc
  case h_3 hc => exact hdeclaration .«var» hc
  case h_4 hc =>
    apply Yields.bind (hn.functionDeclaration hc)
    rintro us f rest ⟨hf, hname⟩
    exact .pure (by simpa using Derives.functionDeclaration hf hname)
  case h_5 hc => exact hn.ifStatement l hc
  case h_6 hc => exact hn.whileStatement l hc
  case h_7 hc => exact hn.forStatement l hc
  case h_8 hc => exact hn.tryStatement l hc
  case h_9 hc => exact yields_ended (hn.returnStatement l hc)
  case h_10 hc => exact yields_ended (hn.throwStatement l hc)
  case h_11 hc => exact hexit _ _ hc fun s => .break
  case h_12 hc => exact hexit _ _ hc fun s => .continue
  case h_13 => exact .fail
  case h_14 =>
    apply Yields.bind (reads_block (hn.statement l) ts)
    rintro us ⟨body, s⟩ rest hb
    exact .pure (by simpa using Derives.blockStatement hb)
  case h_15 hc =>
    apply Yields.advance hc rfl
    exact .pure .empty
  case h_16 =>
    apply yields_ended
    apply hn.expressionStatement l
    unfold Token.opensStatement
    split <;> simp_all

end Nested.Sound

theorem reads_tooDeep {α : Type} {Q : Tokens → α → Prop} (limit : Nat) (what : Construct) :
    (tooDeep limit what).Reads Q := fun _ => .fail

def nestedAt (limit left : Nat) : Nested :=
  ⟨expressionAt limit left, operandAt limit left, statementAt limit left⟩

/-- However many levels of nesting are left, what is read is what the grammar derives. -/
theorem sound_nestedAt (limit left : Nat) : (nestedAt limit left).Sound := by
  induction left with
  | zero =>
    exact ⟨reads_tooDeep limit .expression, reads_tooDeep limit .unaryExpression,
      fun _ => reads_tooDeep limit .statement⟩
  | succ left ih => exact ⟨ih.assignment, ih.unary, ih.anyStatement⟩

abbrev Tokens.body (ts : Tokens) : Tokens :=
  ts.takeWhile fun t => !t.value.isFinish

abbrev Tokens.close (ts : Tokens) : Tokens :=
  ts.dropWhile fun t => !t.value.isFinish

theorem Tokens.body_append {us : Tokens} (h : ∀ t ∈ us, t.value.isFinish = false) (ts : Tokens) :
    Tokens.body (us ++ ts) = us ++ ts.body :=
  List.takeWhile_append_of_pos (by simpa using h)

/-- The number of tokens is fuel enough, because a statement takes at least one: the statements go
on to the closing token. -/
theorem yields_statementsUntilEnd {statement : Reading Stmt} {l : Bool}
    (h : statement.Reads (Derives (.statement l))) (fuel : Nat) :
    ∀ ts : Tokens, ts.length ≤ fuel → (statementsUntilEnd statement fuel).Yields ts fun us ds =>
      us = ts.body ∧ Derives (.many (.statement l)) us ds := by
  induction fuel with
  | zero =>
    intro ts hfuel
    have hts : ts = [] := List.length_eq_zero_iff.mp (Nat.le_zero.mp hfuel)
    subst hts
    exact .pure ⟨rfl, .manyNil⟩
  | succ fuel ih =>
    intro ts hfuel
    unfold statementsUntilEnd
    apply Yields.current
    split
    · rename_i hfin
      refine .pure ⟨?_, .manyNil⟩
      cases ts with
      | nil => rfl
      | cons t rest => simp_all [Tokens.current]
    · apply Yields.bind_split (h ts)
      rintro us d rest rfl hus hd
      have hne : us.length ≠ 0 := fun h => hd.ne_nil rfl (List.length_eq_zero_iff.mp h)
      have hrest : rest.length ≤ fuel := by
        rw [List.length_append] at hfuel
        omega
      apply Yields.bind (ih rest hrest)
      rintro vs ds rest ⟨rfl, hds⟩
      refine .pure ⟨?_, ?_⟩
      · rw [Tokens.body_append hus, List.append_nil]
      · simpa using Derives.manyCons hd hds

theorem yields_programAt (limit : Nat) (ts : Tokens) :
    (programAt limit).Yields ts fun us p =>
      us = ts.body ∧ Derives (.many (.statement false)) us p.statements ∧
        p.span = ts.span.merge ts.close.span := by
  have hstatement := (sound_nestedAt limit limit).statement false
  unfold programAt
  apply Yields.here
  apply Yields.get
  apply Yields.bind_split (yields_statementsUntilEnd hstatement _ ts (Nat.le_refl _))
  rintro us ds rest hts _ ⟨rfl, hds⟩
  have hrest : ts.close = rest := by
    have hsplit := List.takeWhile_append_dropWhile (p := fun t => !t.value.isFinish) (l := ts)
    exact List.append_cancel_left (hsplit.trans hts)
  apply Yields.here
  exact .pure ⟨by simp, by simpa using hds, by rw [hrest]⟩

namespace Program

/-- An accepted token list is, up to its closing token, a derivation of the script that is read off
it; and in no derivation does an operand stand at a level looser than its operator allows, unless
the tokens around it are parentheses. -/
theorem ofTokens_sound {limit : Nat} {ts : Tokens} {p : Program}
    (h : ofTokens limit ts = .ok p) :
    Derives (.many (.statement false)) ts.body p.statements ∧
      p.span = ts.span.merge ts.close.span ∧
      ∀ level us e, Derives (.expression level) us e →
        ∀ q ∈ e.operands, q.2.Stands q.1 us := by
  unfold ofTokens at h
  cases hrun : (programAt limit).run ts with
  | error e => rw [hrun] at h; cases h
  | ok r =>
    rw [hrun] at h
    cases h
    obtain ⟨us, hts, _, rfl, hderives, hspan⟩ := yields_programAt limit ts r.1 r.2 hrun
    exact ⟨hderives, hspan, fun level us e he => he.stratified⟩

/-- The tokens of `(a || b) && c;`. -/
def groupedTokens : Tokens :=
  [⟨.symbol .leftParen, ⟨0, 1, 1, 1⟩⟩, ⟨.identifier "a", ⟨1, 2, 1, 2⟩⟩, ⟨.symbol .or, ⟨3, 5, 1, 4⟩⟩,
    ⟨.identifier "b", ⟨6, 7, 1, 7⟩⟩, ⟨.symbol .rightParen, ⟨7, 8, 1, 8⟩⟩,
    ⟨.symbol .and, ⟨9, 11, 1, 10⟩⟩, ⟨.identifier "c", ⟨12, 13, 1, 13⟩⟩,
    ⟨.symbol .semicolon, ⟨13, 14, 1, 14⟩⟩, ⟨.finish, ⟨14, 14, 1, 15⟩⟩]

/-- The script of `(a || b) && c;`. -/
def grouped : Program :=
  ⟨[.expression (.logical .and
      (.logical .or (.identifier "a" ⟨1, 2, 1, 2⟩) (.identifier "b" ⟨6, 7, 1, 7⟩) ⟨1, 7, 1, 2⟩)
      (.identifier "c" ⟨12, 13, 1, 13⟩) ⟨1, 13, 1, 2⟩)],
    ⟨0, 14, 1, 1⟩⟩

theorem ofTokens_sound_sample :
    ofTokens 4 groupedTokens = .ok grouped ∧
      Derives (.many (.statement false)) groupedTokens.body grouped.statements :=
  have h : ofTokens 4 groupedTokens = .ok grouped := rfl
  ⟨h, (ofTokens_sound h).1⟩

end Program

end ModuleLoader.Script
