import ModuleLoader.Proofs.Completeness

/-! Statements are read off their shortest spelling, and with them all well-formed trees. -/
namespace ModuleLoader.Script

open Reading

theorem Token.isKeyword_eq_false {t : Token} {word : Keyword} (h : t ≠ .keyword word) :
    t.isKeyword word = false := by
  cases hat : t.isKeyword word with
  | false => rfl
  | true => exact absurd (Token.eq_keyword hat) h

namespace Nested

variable {n : Nested} {l : Bool} {us vs : List Token} {e : Expr}

/-! ### Simple statements -/

theorem gives_ended {s : Reading Stmt} {P : Stmt → Prop} (us : List Token)
    (h : s.Gives (us ++ .symbol .semicolon :: vs) fun s' rest =>
      P s' ∧ rest = .symbol .semicolon :: vs) :
    (ended s).Gives (us ++ .symbol .semicolon :: vs) fun s' rest => P s' ∧ rest = vs := by
  unfold ended
  refine h.bind ?_
  rintro s' _ ⟨hs, rfl⟩
  exact Gives.skip (.pure ⟨hs, rfl⟩)

theorem gives_declarator {kind : DeclarationWord} {d : String × Option Expr}
    (hd : ∀ e ∈ d.2, n.Expects (e.layout false).tokens e)
    (hconst : kind = .«const» → d.2.isSome = true)
    (hvs : Token.ahead vs = .symbol .comma ∨ Token.ahead vs = .symbol .semicolon) :
    (declarator n kind).Gives ((declaratorLayout d).tokens ++ vs) fun r rest =>
      (r.1.1, r.1.2.map Expr.bare) = (d.1, d.2.map Expr.bare) ∧ rest = vs := by
  obtain ⟨name, init⟩ := d
  unfold declarator
  refine Gives.identifier fun span => ?_
  cases init with
  | none =>
    have hassign : (Token.ahead vs).isSymbol .assign = false := by
      obtain h | h := hvs <;> rw [h] <;> rfl
    refine Gives.skip_not hassign ?_
    rw [if_neg Bool.false_ne_true, if_neg fun h => Bool.false_ne_true (hconst h)]
    exact .pure ⟨rfl, rfl⟩
  | some e =>
    refine Gives.skip ?_
    rw [if_pos rfl]
    have hcloses : Level.assignment.Closes (Token.ahead vs) := by
      refine Level.closes_of_none ?_
      obtain h | h := hvs <;> rw [h] <;> rfl
    refine (hd e rfl vs hcloses).bind ?_
    rintro e' _ ⟨he, rfl⟩
    exact .pure ⟨by rw [Option.map_some, Option.map_some, he], rfl⟩

/-- Every variable takes a token, so the number of tokens is fuel enough. -/
theorem gives_declarators {kind : DeclarationWord} {ds : List (String × Option Expr)}
    (hne : ds ≠ []) (hds : ∀ d ∈ ds, ∀ e ∈ d.2, n.Expects (e.layout false).tokens e)
    (hconst : kind = .«const» → ∀ d ∈ ds, d.2.isSome = true) :
    ∀ fuel, ((Spelling.commas (ds.map declaratorLayout)).tokens ++
        .symbol .semicolon :: vs).length ≤ fuel →
      (declarators n kind fuel).Gives ((Spelling.commas (ds.map declaratorLayout)).tokens ++
        .symbol .semicolon :: vs) fun r rest =>
        (r.1.map fun d => (d.1, d.2.map Expr.bare)) = (ds.map fun d => (d.1, d.2.map Expr.bare)) ∧
          rest = .symbol .semicolon :: vs := by
  induction ds with
  | nil => exact absurd rfl hne
  | cons d ds ih =>
    obtain ⟨hd, hds⟩ := List.forall_mem_cons.mp hds
    have hconstd := fun h => (List.forall_mem_cons.mp (hconst h)).1
    have hconstds := fun h => (List.forall_mem_cons.mp (hconst h)).2
    rintro (_ | fuel) hfuel
    · simp only [List.length_append, List.length_cons] at hfuel
      omega
    unfold declarators
    cases ds with
    | nil =>
      refine (gives_declarator hd hconstd (.inr rfl)).bind ?_
      rintro r _ ⟨hr, rfl⟩
      exact Gives.skip_not rfl (.pure ⟨by rw [List.map_singleton, List.map_singleton, hr], rfl⟩)
    | cons d' ds =>
      have htokens : (Spelling.commas ((d :: d' :: ds).map declaratorLayout)).tokens ++
          .symbol .semicolon :: vs = (declaratorLayout d).tokens ++ .symbol .comma ::
            ((Spelling.commas ((d' :: ds).map declaratorLayout)).tokens ++
              .symbol .semicolon :: vs) := by
        simp only [List.map_cons, Spelling.commas, Spelling.tokens_append, Spelling.tokens_mark,
          List.append_assoc, List.cons_append, List.nil_append]
      rw [htokens] at hfuel ⊢
      refine (gives_declarator hd hconstd (.inl rfl)).bind ?_
      rintro r _ ⟨hr, rfl⟩
      refine Gives.skip ?_
      rw [if_pos rfl]
      have hle : ((Spelling.commas ((d' :: ds).map declaratorLayout)).tokens ++
          .symbol .semicolon :: vs).length ≤ fuel := by
        rw [List.length_append, List.length_cons] at hfuel
        omega
      refine (ih (List.cons_ne_nil _ _) hds hconstds fuel hle).bind ?_
      rintro rs _ ⟨hrs, rfl⟩
      exact .pure ⟨by rw [List.map_cons, List.map_cons (l := d' :: ds), hr, hrs], rfl⟩

theorem gives_declaration {kind : DeclarationWord} {ds : List (String × Option Expr)} {span : Span}
    (hformed : (Node.stmt (.declaration kind ds span)).Formed)
    (hds : ∀ d ∈ ds, ∀ e ∈ d.2, n.Expects (e.layout false).tokens e) (vs : List Token) :
    (declaration n kind).Gives
      (.keyword kind.word :: ((Spelling.commas (ds.map declaratorLayout)).tokens ++
        .symbol .semicolon :: vs)) fun s rest =>
      s.bare = (Stmt.declaration kind ds span).bare ∧ rest = .symbol .semicolon :: vs := by
  unfold declaration
  refine Gives.advance rfl fun start => Gives.get fun ts hts => ?_
  have hconst (hkind : kind = .«const») (d) (hd : d ∈ ds) : d.2.isSome = true :=
    hformed.2 hkind d hd
  refine (gives_declarators hformed.1 hds hconst _ (Nat.le_of_eq hts.symm)).bind ?_
  rintro r _ ⟨hr, rfl⟩
  refine .pure ⟨?_, rfl⟩
  rw [Stmt.bare_declaration, Stmt.bare_declaration, hr]

theorem gives_returnStatement {e : Option Expr} {span : Span}
    (he : ∀ e' ∈ e, n.Expects (e'.layout false).tokens e') (vs : List Token) :
    (returnStatement n).Gives
      (.keyword .«return» :: ((optionalLayout e).tokens ++ .symbol .semicolon :: vs))
      fun s rest => s.bare = (Stmt.return e span).bare ∧ rest = .symbol .semicolon :: vs := by
  unfold returnStatement
  refine Gives.advance rfl fun start => Gives.current ?_
  cases e with
  | none => exact .pure ⟨by rw [Stmt.bare_return, Stmt.bare_return], rfl⟩
  | some e =>
    have hstarts : startsValue (Token.ahead ((e.layout false).tokens ++ .symbol .semicolon :: vs)) =
        true := by
      obtain ⟨t, rest, hts, ht⟩ := e.begins_layout false
      rw [hts, List.cons_append, Token.ahead_cons, startsValue,
        Token.isSymbol_of_opensExpression ht.expression rfl,
        Token.isSymbol_of_opensExpression ht.expression rfl,
        Token.isFinish_of_opensExpression ht.expression]
      rfl
    show Gives (if startsValue (Token.ahead ((e.layout false).tokens ++ _)) = true then _ else _)
      ((e.layout false).tokens ++ _) _
    rw [if_pos hstarts]
    refine (he e rfl (.symbol .semicolon :: vs) (Level.closes_of_none rfl)).bind ?_
    rintro e' _ ⟨he', rfl⟩
    refine .pure ⟨?_, rfl⟩
    rw [Stmt.bare_return, Stmt.bare_return, Option.map_some, Option.map_some, he']

theorem gives_throwStatement {span : Span} (he : n.Expects us e) (vs : List Token) :
    (throwStatement n).Gives (.keyword .throw :: (us ++ .symbol .semicolon :: vs))
      fun s rest => s.bare = (Stmt.throw e span).bare ∧ rest = .symbol .semicolon :: vs := by
  unfold throwStatement
  refine Gives.advance rfl fun start => ?_
  refine (he (.symbol .semicolon :: vs) (Level.closes_of_none rfl)).bind ?_
  rintro e' _ ⟨he', rfl⟩
  exact .pure ⟨by rw [Stmt.bare, Stmt.bare, he'], rfl⟩

theorem gives_expressionStatement (he : n.Expects us e) (vs : List Token) :
    (Stmt.expression <$> n.expression).Gives (us ++ .symbol .semicolon :: vs)
      fun s rest => s.bare = (Stmt.expression e).bare ∧ rest = .symbol .semicolon :: vs := by
  rw [map_eq_pure_bind]
  refine (he (.symbol .semicolon :: vs) (Level.closes_of_none rfl)).bind ?_
  rintro e' _ ⟨he', rfl⟩
  exact .pure ⟨by rw [Stmt.bare, Stmt.bare, he'], rfl⟩

theorem anyStatement_of_not_opens {Q : Stmt → List Token → Prop}
    (ht : (Token.ahead vs).opensStatement = false)
    (h : (ended (.expression <$> n.expression)).Gives vs Q) : (anyStatement n l).Gives vs Q := by
  unfold anyStatement
  apply Gives.current
  split
  case h_16 => exact h
  all_goals
    rename_i hc
    rw [hc] at ht
    cases ht

/-! ### Statements with parts -/

theorem gives_parenthesized (he : n.Expects us e) (vs : List Token) :
    (parenthesized n).Gives (.symbol .leftParen :: (us ++ .symbol .rightParen :: vs))
      fun e' rest => e'.bare = e.bare ∧ rest = vs := by
  unfold parenthesized
  refine Gives.expect fun _ => ?_
  refine (he (.symbol .rightParen :: vs) (Level.closes_of_none rfl)).bind ?_
  rintro e' _ ⟨he', rfl⟩
  exact Gives.expect fun _ => .pure ⟨he', rfl⟩

theorem gives_expressionUnless {mark : Symbol} (hjoins : (Token.symbol mark).joins? = none)
    (hopens : (Token.symbol mark).opensExpression = false) {e : Option Expr}
    (he : ∀ e' ∈ e, n.Expects (e'.layout false).tokens e') (vs : List Token) :
    (expressionUnless n mark).Gives ((optionalLayout e).tokens ++ .symbol mark :: vs)
      fun e' rest => e'.map Expr.bare = e.map Expr.bare ∧ rest = .symbol mark :: vs := by
  unfold expressionUnless
  apply Gives.isAt
  cases e with
  | none =>
    have hat : (Token.symbol mark).isSymbol mark = true := beq_self_eq_true mark
    show Gives (if (Token.symbol mark).isSymbol mark = true then _ else _) _ _
    rw [if_pos hat]
    exact .pure ⟨rfl, rfl⟩
  | some e =>
    obtain ⟨t, rest, hts, ht⟩ := e.begins_layout false
    have hat : ((Token.ahead ((e.layout false).tokens ++ .symbol mark :: vs)).isSymbol mark) =
        false := by
      rw [hts]
      exact Token.isSymbol_of_opensExpression ht.expression hopens
    show Gives (if (Token.ahead ((e.layout false).tokens ++ _)).isSymbol mark = true then _ else _)
      ((e.layout false).tokens ++ _) _
    rw [hat, if_neg Bool.false_ne_true]
    refine (he e rfl (.symbol mark :: vs) (Level.closes_of_none hjoins)).bind ?_
    rintro e' _ ⟨he', rfl⟩
    exact .pure ⟨congrArg some he', rfl⟩

/-- At the head of a loop the statement is read off its spelling. -/
def Opens (n : Nested) (s : Stmt) : Prop :=
  ∀ vs, (forInit n).Gives ((s.layout false).tokens ++ .symbol .semicolon :: vs) fun init rest =>
    init.map Stmt.bare = some s.bare ∧ rest = .symbol .semicolon :: vs

theorem opens_declaration {kind : DeclarationWord} {ds : List (String × Option Expr)} {span : Span}
    (hformed : (Node.stmt (.declaration kind ds span)).Formed)
    (hds : ∀ d ∈ ds, ∀ e ∈ d.2, n.Expects (e.layout false).tokens e) :
    n.Opens (.declaration kind ds span) := by
  intro vs
  rw [Stmt.layout_declaration]
  unfold forInit
  refine Gives.current ?_
  have hkind : declarationWord? (.keyword kind.word) = some kind := by cases kind <;> rfl
  simp only [Spelling.tokens_append, Spelling.tokens_word, Spelling.semicolonIf,
    Bool.false_eq_true, if_false, Spelling.tokens_of, List.append_nil, List.cons_append,
    List.nil_append, Token.ahead_cons, hkind]
  rw [map_eq_pure_bind]
  refine (gives_declaration hformed hds vs).bind ?_
  rintro s _ ⟨hs, rfl⟩
  exact .pure ⟨congrArg some hs, rfl⟩

theorem opens_expression (he : n.Expects (e.layout false).tokens e) : n.Opens (.expression e) := by
  intro vs
  have htokens : ((Stmt.expression e).layout false).tokens = (e.layout false).tokens := by
    rw [Stmt.layout]
    exact List.append_nil _
  rw [htokens]
  unfold forInit
  apply Gives.current
  have hread := he (.symbol .semicolon :: vs) (Level.closes_of_none rfl)
  obtain ⟨t, rest, hts, ht⟩ := e.begins_layout false
  have hsemicolon : t.isSymbol .semicolon = false :=
    Token.isSymbol_of_opensExpression ht.expression rfl
  have hword : declarationWord? t = none := by
    cases h : declarationWord? t with
    | none => rfl
    | some kind =>
      obtain rfl := eq_of_declarationWord? h
      cases kind <;> cases ht.expression
  rw [hts] at hread ⊢
  rw [List.cons_append, Token.ahead_cons, hword]
  dsimp only
  rw [hsemicolon, if_neg Bool.false_ne_true]
  refine hread.bind ?_
  rintro e' _ ⟨he', rfl⟩
  exact .pure ⟨by rw [Option.map_some, Stmt.bare, Stmt.bare, he'], rfl⟩

theorem gives_catchClause {param : Option String} {handler : Option (List Stmt)}
    (hparam : param.isSome = true → handler.isSome = true)
    (hbody : ∀ body ∈ handler, ∀ s ∈ body, n.ExpectsStatement l s)
    (hvs : handler = none → (Token.ahead vs).isKeyword .«catch» = false) :
    (catchClause n l).Gives ((handlerLayout param handler).tokens ++ vs) fun r rest =>
      (r.1 = param ∧ r.2.map (fun b => b.1.map Stmt.bare) = handler.map (List.map Stmt.bare)) ∧
        rest = vs := by
  unfold catchClause
  cases handler with
  | none =>
    refine Gives.skipWord_not (hvs rfl) ?_
    cases param with
    | none => exact .pure ⟨⟨rfl, rfl⟩, rfl⟩
    | some name => cases hparam rfl
  | some body =>
    have hblock := gives_block (hbody body rfl) vs
    simp only [handlerLayout, Option.elim_some, Spelling.tokens_append, Spelling.tokens_word,
      Spelling.tokens_of, List.append_assoc, List.cons_append, List.nil_append]
    refine Gives.skipWord ?_
    rw [if_pos rfl]
    unfold catchParam
    rw [bind_assoc]
    cases param with
    | none =>
      have hbrace : (Token.ahead ((blockLayout body).tokens ++ vs)).isSymbol .leftParen = false :=
        rfl
      refine Gives.skip_not hbrace ?_
      rw [if_neg Bool.false_ne_true, pure_bind]
      refine hblock.bind ?_
      rintro b _ ⟨hb, rfl⟩
      exact .pure ⟨⟨rfl, congrArg some hb⟩, rfl⟩
    | some name =>
      refine Gives.skip ?_
      rw [if_pos rfl, bind_assoc]
      refine Gives.identifier fun _ => ?_
      rw [bind_assoc]
      refine Gives.expect fun _ => ?_
      rw [pure_bind]
      refine hblock.bind ?_
      rintro b _ ⟨hb, rfl⟩
      exact .pure ⟨⟨rfl, congrArg some hb⟩, rfl⟩

theorem gives_finallyClause {finalizer : Option (List Stmt)}
    (hbody : ∀ body ∈ finalizer, ∀ s ∈ body, n.ExpectsStatement l s)
    (hvs : finalizer = none → (Token.ahead vs).isKeyword .«finally» = false) :
    (finallyClause n l).Gives ((finalizerLayout finalizer).tokens ++ vs) fun r rest =>
      r.map (fun b => b.1.map Stmt.bare) = finalizer.map (List.map Stmt.bare) ∧ rest = vs := by
  unfold finallyClause
  cases finalizer with
  | none => exact Gives.skipWord_not (hvs rfl) (.pure ⟨rfl, rfl⟩)
  | some body =>
    refine Gives.skipWord ?_
    rw [if_pos rfl]
    refine (gives_block (hbody body rfl) vs).bind ?_
    rintro b _ ⟨hb, rfl⟩
    exact .pure ⟨congrArg some hb, rfl⟩

section Composed

variable {s : Stmt} {span : Span}

theorem gives_ifStatement {s' : Option Stmt} (hformed : (Node.stmt (.if e s s' span)).Formed)
    (he : n.Expects (e.layout false).tokens e) (hs : n.ExpectsStatement l s)
    (hs' : ∀ s₁ ∈ s', n.ExpectsStatement l s₁) (vs : List Token)
    (hvs : (Stmt.if e s s' span).Closes (Token.ahead vs)) :
    (ifStatement n l).Gives (((Stmt.if e s s' span).layout true).tokens ++ vs) fun s₁ rest =>
      s₁.bare = (Stmt.if e s s' span).bare ∧ rest = vs := by
  rw [Stmt.layout_if]
  simp only [Spelling.tokens_append, Spelling.tokens_word, Spelling.tokens_grouped,
    Spelling.tokens_nested, List.append_assoc, List.cons_append, List.nil_append]
  unfold ifStatement
  refine Gives.advance rfl fun _ => ?_
  refine (gives_parenthesized he _).bind ?_
  rintro e' _ ⟨he', rfl⟩
  cases s' with
  | none =>
    have helse : Token.ahead vs ≠ .keyword .«else» := hvs.2 rfl
    refine (hs vs ⟨hvs.1, fun _ => helse⟩).bind ?_
    rintro s₁ _ ⟨hs₁, rfl⟩
    refine Gives.skipWord_not (Token.isKeyword_eq_false helse) ?_
    rw [if_neg Bool.false_ne_true]
    exact .pure ⟨by rw [Stmt.bare_if, Stmt.bare_if, he', hs₁], rfl⟩
  | some s' =>
    have hcloses : s.Closes (.keyword .«else») :=
      ⟨nofun, fun h => by rw [hformed rfl] at h; cases h⟩
    refine (hs (.keyword .«else» :: ((s'.layout true).tokens ++ vs)) hcloses).bind ?_
    rintro s₁ _ ⟨hs₁, rfl⟩
    refine Gives.skipWord ?_
    rw [if_pos rfl]
    refine (hs' s' rfl vs hvs).bind ?_
    rintro s₂ _ ⟨hs₂, rfl⟩
    refine .pure ⟨?_, rfl⟩
    rw [Stmt.bare_if, Stmt.bare_if, he', hs₁, Option.map_some, Option.map_some, hs₂]

theorem gives_whileStatement (span : Span) (he : n.Expects (e.layout false).tokens e)
    (hs : n.ExpectsStatement true s) (vs : List Token) (hvs : s.Closes (Token.ahead vs)) :
    (whileStatement n).Gives (((Stmt.while e s span).layout true).tokens ++ vs) fun s₁ rest =>
      s₁.bare = (Stmt.while e s span).bare ∧ rest = vs := by
  rw [Stmt.layout]
  simp only [Spelling.tokens_append, Spelling.tokens_word, Spelling.tokens_grouped,
    Spelling.tokens_nested, List.append_assoc, List.cons_append, List.nil_append]
  unfold whileStatement
  refine Gives.advance rfl fun _ => ?_
  refine (gives_parenthesized he _).bind ?_
  rintro e' _ ⟨he', rfl⟩
  refine (hs vs hvs).bind ?_
  rintro s₁ _ ⟨hs₁, rfl⟩
  exact .pure ⟨by rw [Stmt.bare, Stmt.bare, he', hs₁], rfl⟩

theorem gives_forInit {init : Option Stmt} (hinit : ∀ s ∈ init, n.Opens s) (vs : List Token) :
    (forInit n).Gives ((init.elim (.of []) (Stmt.layout false)).tokens ++ .symbol .semicolon :: vs)
      fun init' rest =>
        init'.map Stmt.bare = init.map Stmt.bare ∧ rest = .symbol .semicolon :: vs := by
  cases init with
  | none =>
    unfold forInit
    exact Gives.current (.pure ⟨rfl, rfl⟩)
  | some s => exact hinit s rfl vs

theorem gives_forStatement (init : Option Stmt) (e e' : Option Expr) (span : Span)
    (hinit : ∀ s ∈ init, n.Opens s) (he : ∀ x ∈ e, n.Expects (x.layout false).tokens x)
    (he' : ∀ x ∈ e', n.Expects (x.layout false).tokens x) (hs : n.ExpectsStatement true s)
    (vs : List Token) (hvs : s.Closes (Token.ahead vs)) :
    (forStatement n).Gives (((Stmt.for init e e' s span).layout true).tokens ++ vs) fun s₁ rest =>
      s₁.bare = (Stmt.for init e e' s span).bare ∧ rest = vs := by
  rw [Stmt.layout_for]
  simp only [Spelling.tokens_append, Spelling.tokens_word, Spelling.tokens_mark,
    Spelling.tokens_nested, List.append_assoc, List.cons_append, List.nil_append]
  unfold forStatement
  refine Gives.advance rfl fun _ => Gives.expect fun _ => ?_
  refine (gives_forInit hinit _).bind ?_
  rintro init' _ ⟨hinit', rfl⟩
  refine Gives.expect fun _ => ?_
  refine (gives_expressionUnless rfl rfl he _).bind ?_
  rintro e₁ _ ⟨he₁, rfl⟩
  refine Gives.expect fun _ => ?_
  refine (gives_expressionUnless rfl rfl he' _).bind ?_
  rintro e₂ _ ⟨he₂, rfl⟩
  refine Gives.expect fun _ => ?_
  refine (hs vs hvs).bind ?_
  rintro s₁ _ ⟨hs₁, rfl⟩
  exact .pure ⟨by rw [Stmt.bare_for, Stmt.bare_for, hinit', he₁, he₂, hs₁], rfl⟩

theorem gives_tryStatement {body : List Stmt} {param : Option String}
    {handler finalizer : Option (List Stmt)}
    (hformed : (Node.stmt (.try body param handler finalizer span)).Formed)
    (hbody : ∀ s ∈ body, n.ExpectsStatement l s)
    (hhandler : ∀ body ∈ handler, ∀ s ∈ body, n.ExpectsStatement l s)
    (hfinalizer : ∀ body ∈ finalizer, ∀ s ∈ body, n.ExpectsStatement l s)
    (vs : List Token) (hvs : Token.ahead vs ≠ .keyword .«finally») :
    (tryStatement n l).Gives
      (((Stmt.try body param handler finalizer span).layout true).tokens ++ vs) fun s₁ rest =>
      s₁.bare = (Stmt.try body param handler finalizer span).bare ∧ rest = vs := by
  rw [Stmt.layout_try]
  simp only [Spelling.tokens_append, Spelling.tokens_word, List.append_assoc, List.cons_append,
    List.nil_append]
  unfold tryStatement
  refine Gives.advance rfl fun _ => ?_
  refine (gives_block hbody _).bind ?_
  rintro ⟨body', bodySpan⟩ _ ⟨hbody', rfl⟩
  have hcatch : handler = none → (Token.ahead ((finalizerLayout finalizer).tokens ++ vs)).isKeyword
      .«catch» = false := by
    rintro rfl
    obtain h | h := hformed.1
    · cases h
    · obtain ⟨body, rfl⟩ := Option.isSome_iff_exists.mp h
      rfl
  refine (gives_catchClause hformed.2 hhandler hcatch).bind ?_
  rintro ⟨param', handler'⟩ _ ⟨⟨rfl, hhandler'⟩, rfl⟩
  refine (gives_finallyClause hfinalizer fun _ => Token.isKeyword_eq_false hvs).bind ?_
  rintro finalizer' _ ⟨hfinalizer', rfl⟩
  have hbare (span' : Span) : (Stmt.try body' param' (handler'.map Prod.fst)
      (finalizer'.map Prod.fst) span').bare =
        (Stmt.try body param' handler finalizer span).bare := by
    have hbody' : body'.map Stmt.bare = body.map Stmt.bare := hbody'
    have hhandler' : (handler'.map Prod.fst).map (List.map Stmt.bare) =
        handler.map (List.map Stmt.bare) := by
      rw [Option.map_map]
      exact hhandler'
    have hfinalizer' : (finalizer'.map Prod.fst).map (List.map Stmt.bare) =
        finalizer.map (List.map Stmt.bare) := by
      rw [Option.map_map]
      exact hfinalizer'
    rw [Stmt.bare_try, Stmt.bare_try, hbody', hhandler', hfinalizer']
  have hsome : handler'.isSome = true ∨ finalizer'.isSome = true := by
    have hhandler'' := congrArg Option.isSome hhandler'
    have hfinalizer'' := congrArg Option.isSome hfinalizer'
    simp only [Option.isSome_map] at hhandler'' hfinalizer''
    rw [hhandler'', hfinalizer'']
    exact hformed.1
  dsimp only
  split
  · obtain h | h := hsome <;> cases h
  · exact .pure ⟨hbare _, rfl⟩

end Composed

end Nested

/-- At the head of a loop the statement is read off its spelling, at any depth that leaves enough
levels of nesting. -/
def Stmt.OpensLoops (s : Stmt) : Prop :=
  ∀ limit left, (s.layout false).nesting ≤ left →
    ((∃ e, s = .expression e) ∨ ∃ kind ds span, s = .declaration kind ds span) →
    (nestedAt limit left).Opens s

namespace Stmt

open Nested

variable {limit left : Nat} {ended : Bool} {s : Stmt}

theorem expects_declarators {kind : DeclarationWord} {ds : List (String × Option Expr)}
    {span : Span} (hexprs : ∀ e, .expr e ∈ (declaration kind ds span).parts → e.Rereadable)
    (hn : ((declaration kind ds span).layout ended).nesting ≤ left) :
    ∀ d ∈ ds, ∀ e ∈ d.2, (nestedAt limit left).Expects (e.layout false).tokens e := by
  rintro ⟨name, init⟩ hd e rfl
  rw [layout_declaration] at hn
  have hn' := (Spelling.nesting_append_le.mp (Spelling.nesting_append_le.mp hn).1).2
  have hn'' := Spelling.nesting_commas_le.mp hn' _ (List.mem_map_of_mem hd)
  simp only [declaratorLayout, Option.elim_some, Spelling.nesting_append_le] at hn''
  exact (hexprs e (List.mem_flatMap.mpr ⟨_, hd, List.mem_singleton_self _⟩)).expects hn''.2.2

theorem expects_optional {e : Option Expr} (he : ∀ x ∈ e, x.Rereadable)
    (hn : (optionalLayout e).nesting ≤ left) :
    ∀ x ∈ e, (nestedAt limit left).Expects (x.layout false).tokens x := by
  rintro x rfl
  exact (he x rfl).expects hn

theorem opensLoops_of_parts (hformed : (Node.stmt s).Formed)
    (hexprs : ∀ e, .expr e ∈ s.parts → e.Rereadable) : s.OpensLoops := by
  rintro limit left hn (⟨e, rfl⟩ | ⟨kind, ds, span, rfl⟩)
  · rw [layout] at hn
    exact opens_expression ((hexprs e (List.mem_singleton_self _)).expects
      (Spelling.nesting_append_le.mp hn).1)
  · exact opens_declaration hformed (expects_declarators hexprs hn)

theorem rereadable_of_parts (hformed : (Node.stmt s).Formed)
    (hexprs : ∀ e, .expr e ∈ s.parts → e.Rereadable)
    (hstmts : ∀ s', .stmt s' ∈ s.parts → s'.Rereadable ∧ s'.OpensLoops) : s.Rereadable := by
  intro limit left l hn hl vs hvs
  unfold anyStatement
  cases s with
  | declaration kind ds span =>
    have hread := gives_ended (.keyword kind.word :: _)
      (gives_declaration (n := nestedAt limit left) hformed (expects_declarators hexprs hn) vs)
    rw [layout_declaration]
    simp only [Spelling.semicolonIf, if_true, Spelling.tokens_append, Spelling.tokens_word,
      Spelling.tokens_mark, List.append_assoc, List.cons_append, List.nil_append]
    apply Gives.current
    cases kind <;> exact hread
  | function literal =>
    obtain ⟨name, params, body, span⟩ := literal
    rw [layout] at hn ⊢
    rw [FunctionDef.layout] at hn
    have hbody : ∀ s ∈ body, (nestedAt limit left).ExpectsStatement false s :=
      expects_body (fun s hs => (hstmts s (List.mem_map_of_mem hs)).1)
        (Spelling.nesting_append_le.mp hn).2 fun _ => hformed.2
    have hread := gives_functionDeclaration params hformed.1 hbody span vs
    rw [tokens_layout_function, List.cons_append] at hread ⊢
    refine Gives.current (hread.bind ?_)
    rintro f _ ⟨hf, rfl⟩
    exact .pure ⟨by rw [bare, bare]; exact congrArg _ hf, rfl⟩
  | expression e =>
    rw [layout] at hn ⊢
    have he : (nestedAt limit left).Expects (e.layout true).tokens e :=
      (hexprs e (List.mem_singleton_self _)).expects (Spelling.nesting_append_le.mp hn).1
    simp only [Spelling.semicolonIf, if_true, Spelling.tokens_append, Spelling.tokens_nested,
      Spelling.tokens_mark, List.append_assoc, List.cons_append, List.nil_append]
    refine anyStatement_of_not_opens ?_ (gives_ended _ (gives_expressionStatement he vs))
    obtain ⟨t, rest, hts, ht⟩ := e.begins_layout true
    rw [hts]
    exact ht.statement rfl
  | «if» e s s' span =>
    have he := hexprs e (by simp [parts])
    have hs := (hstmts s (by simp [parts])).1
    have hread := gives_ifStatement (n := nestedAt limit left) (l := l) hformed
    rw [layout_if] at hn hread ⊢
    simp only [Spelling.nesting_append_le, Spelling.nesting_grouped, Spelling.nesting_nested] at hn
    obtain ⟨⟨⟨-, hne⟩, hns⟩, hns'⟩ := hn
    refine Gives.current (hread (he.expects hne) (hs.expects hns fun hf h => hl hf (.consequent h))
      ?_ vs hvs)
    rintro s₁ rfl
    have hs₁ := (hstmts s₁ (by simp [parts])).1
    exact hs₁.expects (Spelling.nesting_append_le.mp hns').2 fun hf h => hl hf (.alternate h)
  | «while» e s span =>
    have he := hexprs e (by simp [parts])
    have hs := (hstmts s (by simp [parts])).1
    have hread := gives_whileStatement (n := nestedAt limit left) (e := e) (s := s) span
    rw [layout] at hn hread ⊢
    simp only [Spelling.nesting_append_le, Spelling.nesting_grouped, Spelling.nesting_nested] at hn
    exact Gives.current (hread (he.expects hn.1.2) (hs.expects hn.2 fun h => by cases h) vs hvs)
  | «for» init e e' s span =>
    have hinit (x : Stmt) (hx : x ∈ init) : x.OpensLoops := (hstmts x (by simp_all [parts])).2
    have he (x : Expr) (hx : x ∈ e) : x.Rereadable := hexprs x (by simp_all [parts])
    have he' (x : Expr) (hx : x ∈ e') : x.Rereadable := hexprs x (by simp_all [parts])
    have hs := (hstmts s (by simp [parts])).1
    have hread := gives_forStatement (n := nestedAt limit left) (s := s) init e e' span
    rw [layout_for] at hn hread ⊢
    simp only [Spelling.nesting_append_le, Spelling.nesting_nested] at hn
    obtain ⟨⟨⟨⟨⟨⟨⟨-, hninit⟩, -⟩, hne⟩, -⟩, hne'⟩, -⟩, hns⟩ := hn
    refine Gives.current (hread ?_ (expects_optional he hne) (expects_optional he' hne')
      (hs.expects hns fun h => by cases h) vs hvs)
    rintro x rfl
    exact hinit x rfl limit left hninit (hformed x rfl)
  | block body span =>
    rw [layout] at hn ⊢
    have hbody : ∀ s ∈ body, (nestedAt limit left).ExpectsStatement l s :=
      expects_body (fun s hs => (hstmts s (List.mem_map_of_mem hs)).1) hn
        fun hf s hs h => hl hf (.block hs h)
    refine Gives.current ((gives_block hbody vs).bind ?_)
    rintro b _ ⟨hb, rfl⟩
    exact .pure ⟨by simp only [bare, hb], rfl⟩
  | «return» e span =>
    rw [layout_return] at hn ⊢
    have hn' := (Spelling.nesting_append_le.mp (Spelling.nesting_append_le.mp hn).1).2
    have he : ∀ x ∈ e, (nestedAt limit left).Expects (x.layout false).tokens x :=
      expects_optional (fun x hx => hexprs x (by simp_all [parts])) hn'
    simp only [Spelling.semicolonIf, if_true, Spelling.tokens_append, Spelling.tokens_word,
      Spelling.tokens_mark, List.append_assoc, List.cons_append, List.nil_append]
    apply Gives.current
    exact gives_ended (.keyword .«return» :: _) (gives_returnStatement he vs)
  | throw e span =>
    rw [layout] at hn ⊢
    have hn' := (Spelling.nesting_append_le.mp (Spelling.nesting_append_le.mp hn).1).2
    have he : (nestedAt limit left).Expects (e.layout false).tokens e :=
      (hexprs e (List.mem_singleton_self _)).expects hn'
    simp only [Spelling.semicolonIf, if_true, Spelling.tokens_append, Spelling.tokens_word,
      Spelling.tokens_nested, Spelling.tokens_mark, List.append_assoc, List.cons_append,
      List.nil_append]
    apply Gives.current
    exact gives_ended (.keyword .throw :: _) (gives_throwStatement he vs)
  | «break» span | «continue» span =>
    have hinLoop : l = true := by
      cases l with
      | true => rfl
      | false => exact absurd (by constructor) (hl rfl)
    subst hinLoop
    rw [layout]
    apply Gives.current
    refine gives_ended [_] ?_
    unfold exitStatement
    exact Gives.advance rfl fun _ => .pure ⟨by rw [bare, bare], rfl⟩
  | «try» body param handler finalizer span =>
    have hread := gives_tryStatement (n := nestedAt limit left) (l := l) hformed
    rw [layout_try] at hn hread ⊢
    simp only [Spelling.nesting_append_le] at hn
    obtain ⟨⟨⟨-, hnbody⟩, hnhandler⟩, hnfinalizer⟩ := hn
    refine Gives.current (hread ?_ ?_ ?_ vs hvs.1)
    · exact expects_body (fun s hs => (hstmts s (by simp_all [parts])).1) hnbody
        fun hf s hs h => hl hf (.guarded hs h)
    · rintro body' rfl
      simp only [handlerLayout, Option.elim_some, Spelling.nesting_append_le] at hnhandler
      exact expects_body (fun s hs => (hstmts s (by simp_all [parts])).1) hnhandler.2
        fun hf s hs h => hl hf (.handler hs h)
    · rintro body' rfl
      simp only [finalizerLayout, Option.elim_some, Spelling.nesting_append_le] at hnfinalizer
      exact expects_body (fun s hs => (hstmts s (by simp_all [parts])).1) hnfinalizer.2
        fun hf s hs h => hl hf (.finalizer hs h)
  | empty span =>
    rw [layout]
    apply Gives.current
    exact Gives.advance rfl fun _ => .pure ⟨by rw [bare, bare], rfl⟩

end Stmt

/-- Well-formed trees are read off their spelling. -/
def Node.Rereadable : Node → Prop
  | expr e => e.Rereadable
  | stmt s => s.Rereadable ∧ s.OpensLoops

theorem Node.rereadable (x : Node) : x.Everywhere Node.Formed → x.Rereadable := by
  refine Node.induction (motive := fun x => x.Everywhere Node.Formed → x.Rereadable) ?_ x
  intro x ih h
  obtain ⟨hformed, hparts⟩ := everywhere_iff.mp h
  have hrereadable (y : Node) (hy : y ∈ x.parts) : y.Rereadable := ih y hy (hparts y hy)
  cases x with
  | expr e =>
    exact Expr.rereadable_of_parts hformed (fun e' he' => hrereadable (.expr e') he')
      fun s hs => (hrereadable (.stmt s) hs).1
  | stmt s =>
    have hexprs := fun e he => hrereadable (.expr e) he
    exact ⟨Stmt.rereadable_of_parts hformed hexprs fun s' hs' => hrereadable (.stmt s') hs',
      Stmt.opensLoops_of_parts hformed hexprs⟩

end ModuleLoader.Script
