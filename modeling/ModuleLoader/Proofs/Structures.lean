import ModuleLoader.Proofs.Shapes

/-! Every statement that is read is well-formed, and its shortest spelling nests no deeper than the
tokens that it was read off; from one level of nesting to the next, this is so of whole scripts. -/
namespace ModuleLoader.Script

open Reading Node

namespace Nested.Fits

variable {n : Nested} {left : Nat}

theorem declarator (hn : n.Fits left) (kind : DeclarationWord) (ts : Tokens) :
    (declarator n kind).Leaves ts fun r _ =>
      (∀ e ∈ r.1.2, (Node.expr e).Everywhere Formed) ∧ (declaratorLayout r.1).nesting ≤ left ∧
        (kind = .«const» → r.1.2.isSome = true) := by
  unfold Script.declarator
  refine Leaves.identifier fun name => Leaves.skip ?_ ?_
  · rw [if_pos rfl]
    refine (hn.inside _).bind fun e rest he => .pure ⟨?_, ?_, fun _ => rfl⟩
    · rintro _ ⟨⟩
      exact he.formed
    · simp only [declaratorLayout, Option.elim_some, Spelling.nesting_append_le]
      exact ⟨Nat.zero_le _, Nat.zero_le _, he.nesting⟩
  · rw [if_neg Bool.false_ne_true]
    split
    · exact .failAt
    · rename_i hkind
      exact .pure ⟨nofun, Nat.zero_le _, fun h => absurd h hkind⟩

theorem declarators (hn : n.Fits left) (kind : DeclarationWord) (fuel : Nat) : ∀ ts,
    (declarators n kind fuel).Leaves ts fun r _ => r.1 ≠ [] ∧ ∀ d ∈ r.1,
      (∀ e ∈ d.2, (Node.expr e).Everywhere Formed) ∧ (declaratorLayout d).nesting ≤ left ∧
        (kind = .«const» → d.2.isSome = true) := by
  induction fuel with
  | zero => exact fun ts => .fail
  | succ fuel ih =>
    intro ts
    unfold Script.declarators
    refine (hn.declarator kind ts).bind ?_
    rintro ⟨d, stop⟩ rest hd
    refine Leaves.skip ?_ ?_
    · refine (ih _).bind ?_
      rintro ⟨ds, stop⟩ rest ⟨-, hds⟩
      exact .pure ⟨List.cons_ne_nil _ _, List.forall_mem_cons.mpr ⟨hd, hds⟩⟩
    · exact .pure ⟨List.cons_ne_nil _ _, List.forall_mem_singleton.mpr hd⟩

theorem declaration (hn : n.Fits left) (kind : DeclarationWord) (ts : Tokens) :
    (declaration n kind).Leaves ts fun s _ => (∃ ds span, s = .declaration kind ds span) ∧
      (Node.stmt s).Everywhere Formed ∧ ∀ ended, (s.layout ended).nesting ≤ left := by
  unfold Script.declaration
  refine Leaves.advance (Leaves.get ((hn.declarators kind _ _).bind ?_))
  rintro ⟨ds, stop⟩ rest ⟨hne, hds⟩
  refine .pure ⟨⟨ds, _, rfl⟩, ?_, fun ended => ?_⟩
  · refine everywhere_iff.mpr ⟨⟨hne, fun hkind d hd => (hds d hd).2.2 hkind⟩, ?_⟩
    intro y hy
    obtain ⟨⟨name, init⟩, hd, hy⟩ := List.mem_flatMap.mp hy
    cases init with
    | none => cases hy
    | some e =>
      obtain rfl : y = .expr e := List.mem_singleton.mp hy
      exact (hds _ hd).1 e rfl
  · rw [Stmt.layout_declaration]
    simp only [Spelling.nesting_append_le, Spelling.nesting_word, Spelling.nesting_commas_le,
      Spelling.nesting_semicolonIf, List.forall_mem_map, Nat.zero_le, true_and, and_true]
    exact fun d hd => (hds d hd).2.1

theorem parenthesized (hn : n.Fits left) (ts : Tokens) :
    (parenthesized n).Leaves ts fun e _ => e.FitsInside left := by
  unfold Script.parenthesized
  exact Leaves.expect ((hn.inside _).bind fun e rest he => Leaves.expect (.pure he))

theorem forInit (hn : n.Fits left) (ts : Tokens) :
    (forInit n).Leaves ts fun init _ => ∀ s ∈ init, (Node.stmt s).Everywhere Formed ∧
      ((∃ e, s = .expression e) ∨ ∃ kind ds span, s = .declaration kind ds span) ∧
        (s.layout false).nesting ≤ left := by
  unfold Script.forInit
  apply Leaves.current
  split
  · rename_i kind _
    refine ((hn.declaration kind ts).imp ?_).map
    rintro s rest ⟨⟨ds, span, rfl⟩, hs, hnesting⟩
    rintro _ ⟨⟩
    exact ⟨hs, .inr ⟨kind, ds, span, rfl⟩, hnesting false⟩
  · split
    · exact .pure (by rintro _ ⟨⟩)
    · refine (hn.inside ts).bind fun e rest he => .pure ?_
      rintro _ ⟨⟩
      refine ⟨everywhere_iff.mpr ⟨trivial, List.forall_mem_singleton.mpr he.formed⟩,
        .inl ⟨e, rfl⟩, ?_⟩
      rw [Stmt.layout]
      exact Spelling.nesting_append_le.mpr ⟨he.nesting, Nat.zero_le _⟩

theorem expressionUnless (hn : n.Fits left) (mark : Symbol) (ts : Tokens) :
    (expressionUnless n mark).Leaves ts fun e _ =>
      (∀ x ∈ e, (Node.expr x).Everywhere Formed) ∧ (optionalLayout e).nesting ≤ left := by
  unfold Script.expressionUnless
  apply Leaves.isAt
  split
  · exact .pure ⟨nofun, Nat.zero_le _⟩
  · refine (hn.inside ts).bind fun e rest he => .pure ⟨?_, he.nesting⟩
    rintro _ ⟨⟩
    exact he.formed

variable {l : Bool} {ts : Tokens}

theorem ifStatement (hn : n.Fits left) (l : Bool) (ts : Tokens) :
    (ifStatement n l).Leaves ts fun s rest => s.Fits l left rest := by
  unfold Script.ifStatement
  refine Leaves.advance ((hn.parenthesized _).bind fun e rest he => ?_)
  refine (hn.statement l rest).bind ?_
  rintro s rest ⟨k, hk, hs⟩
  have hparts : ∀ y ∈ [Node.expr e, .stmt s], y.Everywhere Formed :=
    List.forall_mem_cons.mpr ⟨he.formed, List.forall_mem_singleton.mpr hs.formed⟩
  have hnesting : (.word .«if» ++ (e.layout false).grouped ++ (s.layout true).nested :
      Spelling).nesting ≤ left := by
    simp only [Spelling.nesting_append_le, Spelling.nesting_grouped, Spelling.nesting_nested]
    exact ⟨⟨Nat.zero_le _, he.nesting⟩, Nat.lt_of_le_of_lt hs.nesting hk⟩
  refine Leaves.skipWord (fun helse => ?_) fun helse => ?_
  · refine (hn.statement l _).bind ?_
    rintro s' rest' ⟨k', hk', hs'⟩
    have hdangles : s.dangles = false := by
      cases h : s.dangles with
      | false => rfl
      | true => exact absurd helse (hs.dangles h)
    refine .pure ⟨everywhere_iff.mpr ⟨fun _ => hdangles, ?_⟩, ?_, ?_, hs'.dangles⟩
    · have hparts' : ∀ y ∈ [Node.expr e, .stmt s] ++ [.stmt s'], y.Everywhere Formed :=
        List.forall_mem_append.mpr ⟨hparts, List.forall_mem_singleton.mpr hs'.formed⟩
      exact hparts'
    · rw [Stmt.layout_if]
      refine Spelling.nesting_append_le.mpr ⟨hnesting, ?_⟩
      exact Spelling.nesting_append_le.mpr ⟨Nat.zero_le _, Nat.lt_of_le_of_lt hs'.nesting hk'⟩
    · rintro hl (_ | _ | h | h)
      · exact hs.stays hl h
      · exact hs'.stays hl h
  · refine .pure ⟨everywhere_iff.mpr ⟨nofun, hparts⟩, ?_, ?_, fun _ => helse⟩
    · rw [Stmt.layout_if]
      exact Spelling.nesting_append_le.mpr ⟨hnesting, Nat.zero_le _⟩
    · rintro hl (_ | _ | h)
      exact hs.stays hl h

theorem whileStatement (hn : n.Fits left) (l : Bool) (ts : Tokens) :
    (whileStatement n).Leaves ts fun s rest => s.Fits l left rest := by
  unfold Script.whileStatement
  refine Leaves.advance ((hn.parenthesized _).bind fun e rest he => ?_)
  refine (hn.statement true rest).bind ?_
  rintro s rest ⟨k, hk, hs⟩
  refine .pure ⟨everywhere_iff.mpr ⟨trivial, ?_⟩, ?_, fun _ => nofun, hs.dangles⟩
  · exact List.forall_mem_cons.mpr ⟨he.formed, List.forall_mem_singleton.mpr hs.formed⟩
  · rw [Stmt.layout]
    simp only [Spelling.nesting_append_le, Spelling.nesting_grouped, Spelling.nesting_nested]
    exact ⟨⟨Nat.zero_le _, he.nesting⟩, Nat.lt_of_le_of_lt hs.nesting hk⟩

theorem forStatement (hn : n.Fits left) (l : Bool) (ts : Tokens) :
    (forStatement n).Leaves ts fun s rest => s.Fits l left rest := by
  unfold Script.forStatement
  refine Leaves.advance (Leaves.expect ?_)
  refine (hn.forInit _).bind fun init rest hinit => Leaves.expect ?_
  refine (hn.expressionUnless .semicolon _).bind fun e rest he => Leaves.expect ?_
  refine (hn.expressionUnless .rightParen _).bind fun e' rest he' => Leaves.expect ?_
  refine (hn.statement true _).bind ?_
  rintro s rest ⟨k, hk, hs⟩
  refine .pure ⟨everywhere_iff.mpr ⟨fun s hs => (hinit s hs).2.1, ?_⟩, ?_, fun _ => nofun,
    hs.dangles⟩
  · intro y hy
    simp only [Node.parts, Stmt.parts, List.mem_append, Option.mem_toList, Option.map_eq_some_iff,
      List.mem_singleton] at hy
    obtain ((⟨s', hs', rfl⟩ | ⟨x, hx, rfl⟩) | ⟨x, hx, rfl⟩) | rfl := hy
    · exact (hinit s' hs').1
    · exact he.1 x hx
    · exact he'.1 x hx
    · exact hs.formed
  · have hninit : (init.elim (.of []) (Stmt.layout false)).nesting ≤ left := by
      cases init with
      | none => exact Nat.zero_le _
      | some s => exact (hinit s rfl).2.2
    rw [Stmt.layout_for]
    simp only [Spelling.nesting_append_le, Spelling.nesting_word, Spelling.nesting_mark,
      Spelling.nesting_nested, Nat.zero_le, true_and, and_true]
    exact ⟨⟨⟨hninit, he.2⟩, he'.2⟩, Nat.lt_of_le_of_lt hs.nesting hk⟩

theorem catchClause (hn : n.Fits left) (l : Bool) (ts : Tokens) :
    (catchClause n l).Leaves ts fun r _ =>
      (∀ b ∈ r.2, (∀ s ∈ b.1, (Node.stmt s).Everywhere Formed) ∧
        (l = false → ∀ s ∈ b.1, ¬ s.Escapes)) ∧
      (handlerLayout r.1 (r.2.map Prod.fst)).nesting ≤ left ∧
      (r.1.isSome = true → r.2.isSome = true) := by
  unfold Script.catchClause
  refine Leaves.skipWord (fun _ => ?_) fun _ => ?_
  · rw [if_pos rfl]
    have hparam (ts : Tokens) : catchParam.Leaves ts fun _ _ => True := fun _ _ _ => trivial
    refine (hparam _).bind fun param rest _ => (hn.body l rest).bind ?_
    rintro b rest ⟨hformed, hstays, hnesting⟩
    refine .pure ⟨?_, ?_, fun _ => rfl⟩
    · rintro _ ⟨⟩
      exact ⟨hformed, hstays⟩
    · exact Spelling.nesting_append_le.mpr ⟨Nat.zero_le _, hnesting⟩
  · exact .pure ⟨nofun, Nat.zero_le _, nofun⟩

theorem finallyClause (hn : n.Fits left) (l : Bool) (ts : Tokens) :
    (finallyClause n l).Leaves ts fun r _ =>
      (∀ b ∈ r, (∀ s ∈ b.1, (Node.stmt s).Everywhere Formed) ∧
        (l = false → ∀ s ∈ b.1, ¬ s.Escapes)) ∧
      (finalizerLayout (r.map Prod.fst)).nesting ≤ left := by
  unfold Script.finallyClause
  refine Leaves.skipWord (fun _ => ?_) fun _ => ?_
  · rw [if_pos rfl]
    refine (hn.body l _).bind ?_
    rintro b rest ⟨hformed, hstays, hnesting⟩
    refine .pure ⟨?_, Spelling.nesting_append_le.mpr ⟨Nat.zero_le _, hnesting⟩⟩
    rintro _ ⟨⟩
    exact ⟨hformed, hstays⟩
  · exact .pure ⟨nofun, Nat.zero_le _⟩

theorem tryStatement (hn : n.Fits left) (l : Bool) (ts : Tokens) :
    (tryStatement n l).Leaves ts fun s rest => s.Fits l left rest := by
  unfold Script.tryStatement
  refine Leaves.advance ((hn.body l _).bind ?_)
  rintro ⟨body, bodySpan⟩ rest ⟨hformed, hstays, hnesting⟩
  refine (hn.catchClause l _).bind ?_
  rintro ⟨param, handler⟩ rest ⟨hhandler, hhnesting, hparam⟩
  refine (hn.finallyClause l _).bind ?_
  rintro finalizer rest ⟨hfinalizer, hfnesting⟩
  have hfits (hclause : handler.isSome = true ∨ finalizer.isSome = true) (span : Span) :
      (Stmt.try body param (handler.map Prod.fst) (finalizer.map Prod.fst) span).Fits l left
        rest := by
    refine ⟨everywhere_iff.mpr ⟨?_, ?_⟩, ?_, ?_, nofun⟩
    · simp only [Formed, Option.isSome_map]
      exact ⟨hclause, hparam⟩
    · intro y hy
      simp only [Node.parts, Stmt.parts, List.mem_append, List.mem_map] at hy
      obtain (⟨s, hs, rfl⟩ | ⟨s, hs, rfl⟩) | ⟨s, hs, rfl⟩ := hy
      · exact hformed s hs
      · cases handler with
        | none => cases hs
        | some b => exact (hhandler b rfl).1 s hs
      · cases finalizer with
        | none => cases hs
        | some b => exact (hfinalizer b rfl).1 s hs
    · rw [Stmt.layout_try]
      simp only [Spelling.nesting_append_le]
      exact ⟨⟨⟨Nat.zero_le _, hnesting⟩, hhnesting⟩, hfnesting⟩
    · intro hl hescapes
      generalize hh : handler.map Prod.fst = handler' at hescapes
      generalize hf : finalizer.map Prod.fst = finalizer' at hescapes
      cases hescapes with
      | guarded hs h => exact hstays hl _ hs h
      | handler hs h =>
        obtain ⟨b, rfl, rfl⟩ := Option.map_eq_some_iff.mp hh
        exact (hhandler b rfl).2 hl _ hs h
      | finalizer hs h =>
        obtain ⟨b, rfl, rfl⟩ := Option.map_eq_some_iff.mp hf
        exact (hfinalizer b rfl).2 hl _ hs h
  dsimp only
  split
  · exact .fail
  · rename_i hclause
    refine .pure (hfits ?_ _)
    cases handler with
    | some b => exact .inl rfl
    | none =>
      cases finalizer with
      | some b => exact .inr rfl
      | none => exact absurd rfl (hclause rfl)

theorem ended {x : Reading Stmt} (h : x.Leaves ts fun s _ => ∀ rest, s.Fits l left rest) :
    (ended x).Leaves ts fun s rest => s.Fits l left rest := by
  unfold Script.ended
  exact h.bind fun s rest hs => Leaves.skip (.pure (hs _)) (.pure (hs _))

theorem declarationStatement (hn : n.Fits left) (kind : DeclarationWord) (l : Bool) (ts : Tokens) :
    (Script.ended (Script.declaration n kind)).Leaves ts fun s rest => s.Fits l left rest := by
  refine ended ((hn.declaration kind ts).imp ?_)
  rintro s _ ⟨⟨ds, span, rfl⟩, hformed, hnesting⟩ rest
  exact ⟨hformed, hnesting true, fun _ => nofun, nofun⟩

theorem returnStatement (hn : n.Fits left) (l : Bool) (ts : Tokens) :
    (returnStatement n).Leaves ts fun s _ => ∀ rest, s.Fits l left rest := by
  unfold Script.returnStatement
  refine Leaves.advance (Leaves.current ?_)
  have hreturn (e : Option Expr) (he : ∀ x ∈ e, x.FitsInside left) (span : Span) (rest : Tokens) :
      (Stmt.return e span).Fits l left rest := by
    refine ⟨everywhere_iff.mpr ⟨trivial, ?_⟩, ?_, fun _ => nofun, nofun⟩
    · intro y hy
      obtain ⟨x, hx, rfl⟩ := Option.map_eq_some_iff.mp (Option.mem_toList.mp hy)
      exact (he x hx).formed
    · rw [Stmt.layout_return]
      simp only [Spelling.nesting_append_le, Spelling.nesting_word, Spelling.nesting_semicolonIf,
        Nat.zero_le, true_and, and_true]
      cases e with
      | none => exact Nat.zero_le _
      | some x => exact (he x rfl).nesting
  split
  · refine (hn.inside _).bind fun e rest he => .pure (hreturn (some e) ?_ _)
    rintro _ ⟨⟩
    exact he
  · exact .pure (hreturn none nofun _)

theorem throwStatement (hn : n.Fits left) (l : Bool) (ts : Tokens) :
    (throwStatement n).Leaves ts fun s _ => ∀ rest, s.Fits l left rest := by
  unfold Script.throwStatement
  refine Leaves.advance ((hn.inside _).bind fun e _ he => .pure fun rest => ?_)
  refine ⟨everywhere_iff.mpr ⟨trivial, List.forall_mem_singleton.mpr he.formed⟩, ?_,
    fun _ => nofun, nofun⟩
  rw [Stmt.layout]
  simp only [Spelling.nesting_append_le, Spelling.nesting_word, Spelling.nesting_semicolonIf,
    Spelling.nesting_nested, Nat.zero_le, true_and, and_true]
  exact he.nesting

/-- An expression that is a statement starts with no brace and no `function`. -/
theorem expressionStatement (hn : n.Fits left) (l : Bool) (ts : Tokens)
    (hts : ts.current.opensStatement = false) :
    (Stmt.expression <$> n.expression).Leaves ts fun s _ => ∀ rest, s.Fits l left rest := by
  refine Leaves.map ((hn.expression ts).imp ?_)
  rintro e _ ⟨k, hk, he⟩ rest
  refine ⟨everywhere_iff.mpr ⟨trivial, List.forall_mem_singleton.mpr he.formed⟩, ?_,
    fun _ => nofun, nofun⟩
  have hnesting := he.nesting true fun _ => hts
  rw [Expr.within_assignment] at hnesting
  rw [Stmt.layout]
  simp only [Spelling.nesting_append_le, Spelling.nesting_semicolonIf, Spelling.nesting_nested,
    Nat.zero_le, and_true]
  exact Nat.lt_of_le_of_lt hnesting hk

theorem exitStatement {make : Span → Stmt} (word : Keyword) (l : Bool) (ts : Tokens)
    (hmake : ∀ span, (make span).parts = [] ∧ (Node.stmt (make span)).Formed ∧
      ((make span).layout true).nesting = 0 ∧ (make span).dangles = false) :
    (Script.ended (exitStatement word make l)).Leaves ts fun s rest => s.Fits l left rest := by
  refine ended ?_
  unfold Script.exitStatement
  split
  · rename_i hl
    refine Leaves.advance (.pure fun rest => ?_)
    obtain ⟨hparts, hformed, hnesting, hdangles⟩ := hmake ts.span
    refine ⟨everywhere_iff.mpr ⟨hformed, ?_⟩, ?_, ?_, ?_⟩
    · show ∀ y ∈ (make ts.span).parts, _
      rw [hparts]
      nofun
    · rw [hnesting]
      exact Nat.zero_le _
    · rw [hl]
      nofun
    · rw [hdangles]
      nofun
  · exact .fail

theorem anyStatement (hn : n.Fits left) (l : Bool) (ts : Tokens) :
    (anyStatement n l).Leaves ts fun s rest => s.Fits l left rest := by
  unfold Script.anyStatement
  apply Leaves.current
  split
  case h_1 | h_2 | h_3 => exact hn.declarationStatement _ l ts
  case h_4 =>
    refine (hn.functionDeclaration ts).bind ?_
    rintro ⟨name, params, body, span⟩ rest ⟨hf, hname⟩
    refine .pure ⟨everywhere_iff.mpr ⟨⟨hname, hf.stays⟩, ?_⟩, ?_, fun _ h => (by cases h),
      fun h => by cases h⟩
    · exact List.forall_mem_map.mpr hf.formed
    · rw [Stmt.layout]
      exact hf.nesting
  case h_5 => exact hn.ifStatement l ts
  case h_6 => exact hn.whileStatement l ts
  case h_7 => exact hn.forStatement l ts
  case h_8 => exact hn.tryStatement l ts
  case h_9 => exact ended (hn.returnStatement l ts)
  case h_10 => exact ended (hn.throwStatement l ts)
  case h_11 | h_12 =>
    exact exitStatement _ l ts fun span => ⟨rfl, trivial, by rw [Stmt.layout]; rfl, rfl⟩
  case h_13 => exact .fail
  case h_14 =>
    refine (hn.body l ts).bind ?_
    rintro ⟨body, span⟩ rest ⟨hformed, hstays, hnesting⟩
    refine .pure ⟨everywhere_iff.mpr ⟨trivial, List.forall_mem_map.mpr hformed⟩, ?_, ?_,
      fun h => by cases h⟩
    · rw [Stmt.layout]
      exact hnesting
    · rintro hl (_ | _ | _ | _ | ⟨hs, h⟩)
      exact hstays hl _ hs h
  case h_15 =>
    refine Leaves.advance (.pure ⟨everywhere_iff.mpr ⟨trivial, List.forall_mem_nil _⟩, ?_,
      fun _ h => (by cases h), fun h => by cases h⟩)
    rw [Stmt.layout]
    exact Nat.zero_le _
  case h_16 =>
    refine ended (hn.expressionStatement l ts ?_)
    unfold Token.opensStatement
    split <;> simp_all

end Nested.Fits

theorem leaves_tooDeep {α : Type} {ts : Tokens} {Q : α → Tokens → Prop} (limit : Nat)
    (what : Construct) : (tooDeep limit what).Leaves ts Q := .fail

/-- However many levels of nesting are left, what is read fits in them. -/
theorem fits_nestedAt (limit left : Nat) : (nestedAt limit left).Fits left := by
  induction left with
  | zero =>
    exact ⟨fun _ => leaves_tooDeep limit .expression,
      fun _ => leaves_tooDeep limit .unaryExpression, fun _ _ => leaves_tooDeep limit .statement⟩
  | succ left ih =>
    have hlt := Nat.lt_succ_self left
    exact ⟨fun ts => (ih.assignment ts).imp fun e _ he => ⟨left, hlt, he⟩,
      fun ts => (ih.unary ts).imp fun e _ he => ⟨left, hlt, he⟩,
      fun l ts => (ih.anyStatement l ts).imp fun s _ hs => ⟨left, hlt, hs⟩⟩

/-- The statements of a script are well-formed, no loop exit leaves them, and their spelling fits in
the levels of nesting that they were read with. -/
theorem Program.fits_of_ofTokens {limit : Nat} {ts : Tokens} {p : Program}
    (h : ofTokens limit ts = .ok p) :
    ∀ s ∈ p.statements, (Node.stmt s).Everywhere Formed ∧ ¬ s.Escapes ∧
      (s.layout true).nesting < limit := by
  have hstatement (ts : Tokens) : (statementAt limit limit false).Leaves ts fun s _ =>
      (Node.stmt s).Everywhere Formed ∧ ¬ s.Escapes ∧ (s.layout true).nesting < limit := by
    refine ((fits_nestedAt limit limit).statement false ts).imp ?_
    rintro s rest ⟨k, hk, hs⟩
    exact ⟨hs.formed, hs.stays rfl, Nat.lt_of_le_of_lt hs.nesting hk⟩
  have hread : (programAt limit).Leaves ts fun p _ => ∀ s ∈ p.statements,
      (Node.stmt s).Everywhere Formed ∧ ¬ s.Escapes ∧ (s.layout true).nesting < limit := by
    unfold programAt
    refine Leaves.here (Leaves.get ?_)
    refine (leaves_statementsUntilEnd hstatement _ ts).bind fun body rest hbody => ?_
    exact Leaves.here (.pure hbody)
  unfold ofTokens at h
  cases hrun : (programAt limit).run ts with
  | error e => rw [hrun] at h; cases h
  | ok r =>
    rw [hrun] at h
    cases h
    exact hread r.1 r.2 hrun

theorem Program.fits_of_ofSource {source : String} {p : Program} (h : ofSource source = .ok p) :
    ∀ s ∈ p.statements, (Node.stmt s).Everywhere Formed ∧ ¬ s.Escapes ∧
      (s.layout true).nesting < maxNesting := by
  unfold ofSource at h
  split at h
  · contradiction
  · split at h
    · contradiction
    · rename_i hread
      cases h
      exact fits_of_ofTokens hread

end ModuleLoader.Script
