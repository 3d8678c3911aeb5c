import ModuleLoader.Proofs.Acceptance
import ModuleLoader.Proofs.Parallels

/-! Scripts one behind the other. Where the first is closed by a semicolon, its statements are read
as they are on its own, and those of the second are read from there as on its own. -/
namespace ModuleLoader.Script

open Reading

/-! ### Statements in a row -/

/-- Statements are read one behind the other, and these tokens are left. -/
inductive Series (statement : Reading Stmt) : Tokens → List Stmt → Tokens → Prop where
  | nil {ts : Tokens} : Series statement ts [] ts
  | cons {ts rest us : Tokens} {s : Stmt} {body : List Stmt} (hts : ts.current.isFinish = false)
      (hs : statement.run ts = .ok (s, rest)) (h : Series statement rest body us) :
      Series statement ts (s :: body) us

namespace Series

variable {statement : Reading Stmt} {ts us rest : Tokens} {body body' : List Stmt}

theorem append (h : Series statement ts body us) (h' : Series statement us body' rest) :
    Series statement ts (body ++ body') rest := by
  induction h with
  | nil => exact h'
  | cons hts hs _ ih => exact .cons hts hs (ih h')

theorem leaves (hlt : ∀ ts, statement.Leaves ts fun _ rest => rest.length < ts.length)
    (fuel : Nat) : ∀ ts : Tokens, ts.length ≤ fuel →
      (statementsUntilEnd statement fuel).Leaves ts fun body rest =>
        Series statement ts body rest ∧ rest.current.isFinish = true := by
  induction fuel with
  | zero =>
    intro ts hfuel
    have hnil : ts = [] := List.length_eq_zero_iff.mp (Nat.le_zero.mp hfuel)
    subst hnil
    exact .pure ⟨.nil, rfl⟩
  | succ fuel ih =>
    intro ts hfuel
    unfold statementsUntilEnd
    apply Leaves.current
    split
    · exact .pure ⟨.nil, ‹_›⟩
    · rename_i hts
      have hs : statement.Leaves ts fun s rest =>
          statement.run ts = .ok (s, rest) ∧ rest.length < ts.length :=
        fun s rest h => ⟨h, hlt ts s rest h⟩
      refine hs.bind fun s rest hs => (ih rest (by omega)).bind fun body us hbody => ?_
      exact .pure ⟨.cons (Bool.eq_false_iff.mpr hts) hs.1 hbody.1, hbody.2⟩

theorem run_statementsUntilEnd_finish (hts : ts.current.isFinish = true) {fuel : Nat} :
    (statementsUntilEnd statement (fuel + 1)).run ts = .ok ([], ts) := by
  show StateT.run (if ts.current.isFinish = true then _ else _ : Reading (List Stmt)) ts = _
  rw [if_pos hts]
  rfl

theorem run_statementsUntilEnd (hts : ts.current.isFinish = false) {fuel : Nat} :
    (statementsUntilEnd statement (fuel + 1)).run ts = (do
      let s ← statement
      return s :: (← statementsUntilEnd statement fuel) : Reading (List Stmt)).run ts := by
  show StateT.run (if ts.current.isFinish = true then _ else _ : Reading (List Stmt)) ts = _
  rw [hts]
  rfl

theorem run (hlt : ∀ ts, statement.Leaves ts fun _ rest => rest.length < ts.length)
    (h : Series statement ts body rest) (hrest : rest.current.isFinish = true) {fuel : Nat}
    (hfuel : ts.length ≤ fuel) :
    (statementsUntilEnd statement fuel).run ts = .ok (body, rest) := by
  induction h generalizing fuel with
  | nil =>
    cases fuel with
    | zero => rfl
    | succ fuel => exact run_statementsUntilEnd_finish hrest
  | @cons ts rest us s body hts hs _ ih =>
    have hlt := hlt ts s rest hs
    cases fuel with
    | zero => omega
    | succ fuel =>
      rw [run_statementsUntilEnd hts, StateT.run_bind, hs]
      show StateT.run (statementsUntilEnd statement fuel >>= fun body => pure (s :: body)) rest = _
      rw [StateT.run_bind, ih hrest (by omega)]
      rfl

end Series

variable {limit : Nat} {ts us : Tokens} {p q : Program}

theorem shorter_statementAt (limit left : Nat) (l : Bool) (ts : Tokens) :
    ((nestedAt limit left).statement l).Leaves ts fun _ rest => rest.length < ts.length :=
  leaves_of_reads (c := .statement l) ((sound_nestedAt limit left).statement l) rfl ts

/-- A token list is a script just if it is a row of statements up to its end. -/
theorem Program.ofTokens_eq_ok_iff : ofTokens limit ts = .ok p ↔
    ∃ rest, Series ((nestedAt limit limit).statement false) ts p.statements rest ∧
      rest.current.isFinish = true ∧ p.span = ts.span.merge rest.span := by
  have hlt := shorter_statementAt limit limit false
  constructor
  · have hleaves : (programAt limit).Leaves ts fun p rest =>
        Series ((nestedAt limit limit).statement false) ts p.statements rest ∧
          rest.current.isFinish = true ∧ p.span = ts.span.merge rest.span := by
      unfold programAt
      refine Leaves.here (Leaves.get ?_)
      refine (Series.leaves hlt _ ts (Nat.le_refl _)).bind fun body rest h => ?_
      exact Leaves.here (.pure ⟨h.1, h.2, rfl⟩)
    intro h
    unfold ofTokens at h
    cases hrun : (programAt limit).run ts with
    | error e => rw [hrun] at h; cases h
    | ok r =>
      rw [hrun] at h
      cases h
      exact ⟨r.2, hleaves r.1 r.2 hrun⟩
  · rintro ⟨rest, h, hrest, hspan⟩
    obtain ⟨statements, span⟩ := p
    have hrun := h.run hlt hrest (Nat.le_refl _)
    have hprogram : (programAt limit).run ts = .ok (⟨statements, span⟩, rest) := by
      show StateT.run (statementsUntilEnd ((nestedAt limit limit).statement false) ts.length >>=
        fun body => (do return ⟨body, ts.span.merge (← here)⟩ : Reading Program)) ts = _
      rw [StateT.run_bind, hrun, show span = _ from hspan]
      rfl
    unfold ofTokens
    rw [hprogram]
    rfl

/-- Off tokens that go together the same statements are read in a row, up to places. -/
theorem Series.echoes {C : Coupling} {n n' : Nested} (hn : n.Echoes C n') {body : List Stmt}
    {rest : Tokens} (h : Series (n.statement false) ts body rest) (hts : C.behind ts us) :
    ∃ body' rest', Series (n'.statement false) us body' rest' ∧
      body.map (Stmt.mapSpan C.place) = body'.map (Stmt.mapSpan C.place) ∧ C.behind rest rest' := by
  induction h generalizing us with
  | nil => exact ⟨[], us, .nil, rfl, hts⟩
  | @cons ts rest vs s body hc hs _ ih =>
    obtain hinside | ⟨hfinish, -⟩ := C.inside_or_ended hts
    · obtain ⟨s', rest', hs', -, hplace, hbehind⟩ := (hn.statement false hinside).ok s rest hs
      obtain ⟨body', vs', hbody', hplaces, hvs⟩ := ih hbehind
      refine ⟨s' :: body', vs', .cons ?_ hs' hbody', congrArg₂ List.cons hplace hplaces, hvs⟩
      rw [← C.current_eq hinside]
      exact hc
    · rw [hfinish] at hc
      cases hc

/-! ### The seam -/

theorem refuses_tooDeep {α : Type} (limit : Nat) (what : Construct) (ts : Tokens) :
    (tooDeep limit what : Reading α).Refuses ts :=
  Leaves.fail

section Refusals

variable (hts : ts.current = .keyword .«else»)

include hts

theorem unary_refuses_else (n : Nested) : (unary n).Refuses ts := by
  have hprimary : (primary n).Refuses ts := by
    unfold primary
    apply Leaves.here
    apply Leaves.current
    rw [hts]
    exact .fail
  have hpostfixed : (postfixed n).Refuses ts := Refuses.bind (Refuses.bind hprimary)
  unfold unary
  apply Leaves.current
  rw [hts]
  exact hpostfixed

/-- An expression is refused where its first operand is. -/
theorem assignment_refuses_else (n : Nested) : (assignment n).Refuses ts := by
  have hequality : (equality n).Refuses ts := (unary_refuses_else hts n).bind.bind.bind.bind
  have hconditional : (conditional n).Refuses ts := hequality.bind.bind.bind
  exact hconditional.bind

theorem expression_refuses_else (limit left : Nat) :
    (nestedAt limit left).expression.Refuses ts := by
  cases left with
  | zero => exact refuses_tooDeep limit .expression ts
  | succ left => exact assignment_refuses_else hts (nestedAt limit left)

/-- No statement begins with `else`, because it would be an expression. -/
theorem statement_refuses_else (limit left : Nat) (l : Bool) :
    ((nestedAt limit left).statement l).Refuses ts := by
  cases left with
  | zero => exact refuses_tooDeep limit .statement ts
  | succ left =>
    show (anyStatement (nestedAt limit left) l).Refuses ts
    unfold anyStatement
    apply Leaves.current
    rw [hts]
    refine Refuses.bind ?_
    rw [map_eq_pure_bind]
    exact (expression_refuses_else hts limit left).bind

end Refusals

theorem Series.current_ne_else {left : Nat} {l : Bool} {body : List Stmt} {rest : Tokens}
    (h : Series ((nestedAt limit left).statement l) ts body rest)
    (hrest : rest.current.isFinish = true) : ts.current ≠ .keyword .«else» := by
  intro hc
  cases h with
  | nil =>
    rw [hc] at hrest
    cases hrest
  | cons _ hs _ => exact statement_refuses_else hc limit left l _ _ hs

theorem Tokens.map_advance {t : Token} {vs : List Token} (h : ts.map Spanned.value = t :: vs)
    (ht : t.isFinish = false) : ts.advance.map Spanned.value = vs := by
  have hts := Tokens.eq_cons (Tokens.current_eq h) ht
  rw [hts] at h
  exact (List.cons.inj h).2

/-- The tokens of the first end in a semicolon, and behind the same semicolon the second goes on. -/
def RunsOn (b : List Token) (ts us : Tokens) : Prop :=
  ∃ vs : List Token, (∀ t ∈ vs, t.isFinish = false) ∧
    ts.map Spanned.value = vs ++ [.symbol .semicolon, .finish] ∧
      us.map Spanned.value = vs ++ .symbol .semicolon :: b

namespace RunsOn

variable {b : List Token}

theorem current_eq (h : RunsOn b ts us) : ts.current = us.current := by
  obtain ⟨vs, -, hts, hus⟩ := h
  rw [Tokens.current_eq hts, Tokens.current_eq hus]
  cases vs <;> rfl

theorem isFinish_eq (h : RunsOn b ts us) : ts.current.isFinish = false := by
  obtain ⟨vs, hvs, hts, -⟩ := h
  rw [Tokens.current_eq hts]
  cases vs with
  | nil => rfl
  | cons v vs => exact hvs v List.mem_cons_self

theorem advance (h : RunsOn b ts us) :
    ts.current = .symbol .semicolon ∧ ts.advance.map Spanned.value = [.finish] ∧
      us.advance.map Spanned.value = b ∨ RunsOn b ts.advance us.advance := by
  obtain ⟨vs, hvs, hts, hus⟩ := h
  cases vs with
  | nil =>
    exact .inl ⟨Tokens.current_eq hts, Tokens.map_advance hts rfl, Tokens.map_advance hus rfl⟩
  | cons v vs =>
    obtain ⟨hv, hvs⟩ := List.forall_mem_cons.mp hvs
    exact .inr ⟨vs, hvs, Tokens.map_advance hts hv, Tokens.map_advance hus hv⟩

theorem length_eq (h : RunsOn b ts us) : us.length + 1 = ts.length + b.length := by
  obtain ⟨vs, -, hts, hus⟩ := h
  have hts := congrArg List.length hts
  have hus := congrArg List.length hus
  simp only [List.length_map, List.length_append, List.length_cons, List.length_nil] at hts hus
  omega

end RunsOn

/-- Behind the semicolon the tokens of the first have come to their end, and the second goes on with
others, of which the first is no `else`. -/
def Coupling.runOn (b : List Token) (hb : b ≠ []) (helse : Token.ahead b ≠ .keyword .«else») :
    Coupling where
  place _ := default
  excused _ := True
  inside := RunsOn b
  behind ts us := RunsOn b ts us ∨ ts.map Spanned.value = [.finish] ∧ us.map Spanned.value = b
  more := b.length - 1
  place_merge _ _ := rfl
  current_eq := RunsOn.current_eq
  place_span _ := rfl
  inside_advance h hc := h.advance.resolve_left fun h => hc h.1
  behind_advance h _ := h.advance.symm.imp id And.right
  behind_of_inside := .inl
  inside_or_ended h := by
    refine h.imp id fun ⟨hts, hus⟩ => ⟨Tokens.current_eq hts, ?_, fun _ => trivial⟩
    rw [Tokens.current_eq hus]
    exact helse
  length_eq {ts us} h := by
    have hb : b.length ≠ 0 := fun h => hb (List.length_eq_zero_iff.mp h)
    obtain h | ⟨hts, hus⟩ := h
    · have hlength := h.length_eq
      omega
    · have hts := congrArg List.length hts
      have hus := congrArg List.length hus
      simp only [List.length_map, List.length_cons, List.length_nil] at hts hus
      omega
  more_eq_zero {us} h := by
    obtain h | ⟨hts, -⟩ := h
    · cases h.isFinish_eq
    · cases hts

/-- Tokens of the same values go together, wherever they stand. -/
def Coupling.placeless : Coupling :=
  .alike (fun _ => default) (fun _ => True) fun _ _ => rfl

theorem Coupling.placeless_inside (h : ts.map Spanned.value = us.map Spanned.value) :
    placeless.inside ts us := by
  have hview (ts : Tokens) : ts.view (fun _ => default) =
      (ts.map Spanned.value).map fun t => (t, default) := by
    rw [List.map_map]
    rfl
  show ts.view _ = us.view _
  rw [hview, hview, h]

/-! ### Two scripts -/

theorem bare_eq_of_place_eq {f : Span → Span} {body body' : List Stmt}
    (h : body.map (Stmt.mapSpan f) = body'.map (Stmt.mapSpan f)) :
    body.map Stmt.bare = body'.map Stmt.bare := by
  have hbare (body : List Stmt) :
      (body.map (Stmt.mapSpan f)).map Stmt.bare = body.map Stmt.bare := by
    simp [Function.comp_def, Stmt.bare_mapSpan]
  rw [← hbare, h, hbare]

section Rows

variable {left : Nat} {body : List Stmt} {rest : Tokens}

/-- The same statements are read off tokens of the same values. -/
theorem Series.of_values (h : Series ((nestedAt limit left).statement false) ts body rest)
    (hvalues : ts.map Spanned.value = us.map Spanned.value) :
    ∃ body' rest', Series ((nestedAt limit left).statement false) us body' rest' ∧
      body'.map Stmt.bare = body.map Stmt.bare ∧ rest'.current = rest.current := by
  have hinside : Coupling.placeless.behind ts us := Coupling.placeless_inside hvalues
  obtain ⟨body', rest', hbody', hplaces, hrest⟩ := h.echoes (echoes_nestedAt limit left) hinside
  exact ⟨body', rest', hbody', (bare_eq_of_place_eq hplaces).symm,
    (Coupling.placeless.current_eq hrest).symm⟩

/-- The same statements are read where others follow, as long as the last of them is closed by a
semicolon and no `else` comes next. -/
theorem Series.of_closed {a b : List Token}
    (h : Series ((nestedAt limit left).statement false) ts body rest)
    (hrest : rest.current.isFinish = true) (hts : ts.map Spanned.value = a ++ [.finish])
    (hus : us.map Spanned.value = a ++ b) (ha : ∀ t ∈ a, t.isFinish = false)
    (hclosed : a = [] ∨ ∃ vs, a = vs ++ [.symbol .semicolon]) (hb : b ≠ [])
    (helse : Token.ahead b ≠ .keyword .«else») :
    ∃ body' rest', Series ((nestedAt limit left).statement false) us body' rest' ∧
      body'.map Stmt.bare = body.map Stmt.bare ∧ rest'.map Spanned.value = b := by
  have hseam : (Coupling.runOn b hb helse).behind ts us := by
    obtain rfl | ⟨vs, rfl⟩ := hclosed
    · exact .inr ⟨hts, hus⟩
    · refine .inl ⟨vs, fun t ht => ha t (List.mem_append_left _ ht), ?_, ?_⟩
      · simpa using hts
      · simpa using hus
  obtain ⟨body', rest', hbody', hplaces, hend⟩ := h.echoes (echoes_nestedAt limit left) hseam
  refine ⟨body', rest', hbody', (bare_eq_of_place_eq hplaces).symm, ?_⟩
  obtain hend | ⟨-, hend⟩ := hend
  · rw [hend.isFinish_eq] at hrest
    cases hrest
  · exact hend

end Rows

namespace Program

/-- The statements of two scripts in a row, the first of them empty or closed by a semicolon, are
those of the first and then those of the second. -/
theorem ofTokens_append {ta tb tc : Tokens} {a b : List Token}
    (hta : ta.map Spanned.value = a ++ [.finish]) (htb : tb.map Spanned.value = b ++ [.finish])
    (htc : tc.map Spanned.value = a ++ b ++ [.finish]) (ha : ∀ t ∈ a, t.isFinish = false)
    (hclosed : a = [] ∨ ∃ vs, a = vs ++ [.symbol .semicolon])
    (hp : ofTokens limit ta = .ok p) (hq : ofTokens limit tb = .ok q) :
    ∃ r, ofTokens limit tc = .ok r ∧
      r.statements.map Stmt.bare = p.statements.map Stmt.bare ++ q.statements.map Stmt.bare := by
  obtain ⟨resta, hfirst, hresta, -⟩ := ofTokens_eq_ok_iff.mp hp
  obtain ⟨restb, hsecond, hrestb, -⟩ := ofTokens_eq_ok_iff.mp hq
  have hb : b ++ [.finish] ≠ [] := List.append_ne_nil_of_right_ne_nil b (List.cons_ne_nil _ _)
  have helse : Token.ahead (b ++ [.finish]) ≠ .keyword .«else» := by
    rw [← Tokens.current_eq htb]
    exact hsecond.current_ne_else hrestb
  rw [List.append_assoc] at htc
  obtain ⟨body, us, hbody, hbare, hus⟩ := hfirst.of_closed hresta hta htc ha hclosed hb helse
  obtain ⟨body', rest, hbody', hbare', hrest⟩ := hsecond.of_values (htb.trans hus.symm)
  refine ⟨⟨body ++ body', tc.span.merge rest.span⟩,
    ofTokens_eq_ok_iff.mpr ⟨rest, hbody.append hbody', ?_, rfl⟩, ?_⟩
  · rw [hrest]
    exact hrestb
  · rw [List.map_append, hbare, hbare']

/-- Tokens with their closing one, all at one place. -/
def unplaced (vs : List Token) : Tokens :=
  (vs ++ [Token.finish]).map fun t => ⟨t, default⟩

/-- The tokens of `if (x) y;`, which an `else` could follow. -/
def lone : List Token :=
  [.keyword .«if», .symbol .leftParen, .identifier "x", .symbol .rightParen, .identifier "y",
    .symbol .semicolon]

theorem ofTokens_append_sample : ∃ p q r, ofTokens 3 (unplaced lone) = .ok p ∧ p.size = 1 ∧
    ofTokens 3 (unplaced [.identifier "z"]) = .ok q ∧ q.size = 1 ∧
    ofTokens 3 (unplaced (lone ++ [.identifier "z"])) = .ok r ∧
    r.statements.map Stmt.bare = p.statements.map Stmt.bare ++ q.statements.map Stmt.bare := by
  have hp : ofTokens 3 (unplaced lone) = .ok ⟨[.«if» (.identifier "x" default)
      (.expression (.identifier "y" default)) none default], default⟩ := rfl
  have hq : ofTokens 3 (unplaced [.identifier "z"]) =
      .ok ⟨[.expression (.identifier "z" default)], default⟩ := rfl
  have htc : (unplaced (lone ++ [.identifier "z"])).map Spanned.value =
      lone ++ [.identifier "z"] ++ [.finish] := rfl
  obtain ⟨r, hr, hstatements⟩ :=
    ofTokens_append rfl rfl htc (by decide) (.inr ⟨lone.dropLast, rfl⟩) hp hq
  exact ⟨_, _, r, hp, rfl, hq, rfl, hr, hstatements⟩

end Program

end ModuleLoader.Script
