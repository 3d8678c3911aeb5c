import ModuleLoader.Proofs.Leavings
import ModuleLoader.Proofs.Placements

/-! Two readings side by side, each of its own tokens. What the second makes of its tokens is told
by what the first makes of the others, as long as the tokens that are left keep going together. -/
namespace ModuleLoader.Script

variable {α β γ δ : Type}

/-- The reading does not end on these tokens. -/
def Reading.Refuses (x : Reading α) (ts : Tokens) : Prop :=
  x.Leaves ts fun _ _ => False

theorem Reading.Refuses.bind {x : Reading α} {f : α → Reading β} {ts : Tokens} (h : x.Refuses ts) :
    (x >>= f).Refuses ts :=
  Leaves.bind h fun _ _ h => h.elim

/-- Which tokens go together, and what two readings of such tokens agree on. Behind a semicolon the
tokens of the first may have come to their end where the others go on; what the first refuses there
says nothing about the second. -/
structure Coupling where
  /-- What both say of a place. -/
  place : Span → Span
  /-- The faults of the first reading that say nothing about the second. -/
  excused : ParseFault → Prop
  /-- Tokens go together so wherever no statement and no semicolon is right before them. -/
  inside : Tokens → Tokens → Prop
  /-- Tokens go together so behind a statement or a semicolon. -/
  behind : Tokens → Tokens → Prop
  /-- The number of tokens that the second has more. -/
  more : Nat
  place_merge : ∀ {s s' t t' : Span}, place s = place s' → place t = place t' →
    place (s.merge t) = place (s'.merge t')
  current_eq : ∀ {ts us}, inside ts us → ts.current = us.current
  place_span : ∀ {ts us}, inside ts us → place ts.span = place us.span
  inside_advance : ∀ {ts us}, inside ts us → ts.current ≠ .symbol .semicolon →
    inside ts.advance us.advance
  behind_advance : ∀ {ts us}, inside ts us → ts.current = .symbol .semicolon →
    behind ts.advance us.advance
  behind_of_inside : ∀ {ts us}, inside ts us → behind ts us
  inside_or_ended : ∀ {ts us}, behind ts us →
    inside ts us ∨ ts.current = .finish ∧ us.current ≠ .keyword .«else» ∧ ∀ e, excused e
  length_eq : ∀ {ts us}, behind ts us → us.length = ts.length + more
  more_eq_zero : ∀ {us}, behind [] us → more = 0

namespace Coupling

variable {C : Coupling} {t : Token} {ts us : Tokens}

/-- Tokens that go together once this one has been consumed. -/
def after (C : Coupling) : Token → Tokens → Tokens → Prop
  | .symbol .semicolon => C.behind
  | _ => C.inside

theorem after_advance (h : C.inside ts us) : C.after ts.current ts.advance us.advance := by
  by_cases hc : ts.current = .symbol .semicolon
  · rw [hc]
    exact C.behind_advance h hc
  · rw [after]
    · exact C.inside_advance h hc
    · exact hc

theorem inside_of_after (h : C.after t ts us) (ht : t.isSymbol .semicolon = false) :
    C.inside ts us := by
  rw [after] at h
  · exact h
  · rintro rfl
    cases ht

theorem more_eq_zero_of_length (h : C.behind ts us) (hts : ts.length ≤ 0) : C.more = 0 := by
  have hnil : ts = [] := List.length_eq_zero_iff.mp (Nat.le_zero.mp hts)
  subst hnil
  exact C.more_eq_zero h

end Coupling

/-- The values of the tokens, with what is said of their places. -/
def Tokens.view (place : Span → Span) (ts : Tokens) : List (Token × Span) :=
  ts.map fun t => (t.value, place t.span)

namespace Tokens

variable {place : Span → Span} {ts us : Tokens}

theorem current_eq_of_view (h : ts.view place = us.view place) : ts.current = us.current := by
  cases ts <;> cases us <;> simp_all [view, current]

theorem place_eq_of_view (h : ts.view place = us.view place) :
    place ts.span = place us.span := by
  cases ts <;> cases us <;> simp_all [view, span]

theorem advance_eq_of_view (h : ts.view place = us.view place) :
    ts.advance.view place = us.advance.view place := by
  cases ts with
  | nil =>
    cases us with
    | nil => rfl
    | cons u us => cases h
  | cons t ts =>
    cases us with
    | nil => cases h
    | cons u us =>
      simp only [view, List.map_cons, List.cons.injEq, Prod.mk.injEq] at h
      obtain ⟨⟨hvalue, hplace⟩, hrest⟩ := h
      simp only [advance, hvalue]
      split
      · simp only [view, List.map_cons, hvalue, hplace, hrest]
      · exact hrest

end Tokens

/-- Tokens of the same values, at places of which the same is said, go together. -/
def Coupling.alike (place : Span → Span) (excused : ParseFault → Prop)
    (place_merge : ∀ {s s' t t' : Span}, place s = place s' → place t = place t' →
      place (s.merge t) = place (s'.merge t')) : Coupling where
  place := place
  excused := excused
  inside ts us := ts.view place = us.view place
  behind ts us := ts.view place = us.view place
  more := 0
  place_merge := place_merge
  current_eq := Tokens.current_eq_of_view
  place_span := Tokens.place_eq_of_view
  inside_advance h _ := Tokens.advance_eq_of_view h
  behind_advance h _ := Tokens.advance_eq_of_view h
  behind_of_inside h := h
  inside_or_ended h := .inl h
  length_eq h := by simpa [Tokens.view] using (congrArg List.length h).symm
  more_eq_zero _ := rfl

/-- If the first reading ends, the second does, and this holds of what they read and of the tokens
that are left; if the first is refused, the second is for the same cause at the same place. -/
structure Reading.Echoes (C : Coupling) (x : Reading α) (y : Reading β) (ts us : Tokens)
    (Q : α → β → Tokens → Tokens → Prop) : Prop where
  ok : ∀ a rest, x.run ts = .ok (a, rest) →
    ∃ b rest', y.run us = .ok (b, rest') ∧ rest.length ≤ ts.length ∧ Q a b rest rest'
  error : ∀ e, x.run ts = .error e → ¬ C.excused e →
    ∃ e', y.run us = .error e' ∧ e'.value = e.value ∧ C.place e'.span = C.place e.span

/-- Both read the same up to places, and the tokens that are left go together. -/
def Coupling.agree (C : Coupling) (view : α → γ) (a b : α) (ts us : Tokens) : Prop :=
  view a = view b ∧ C.inside ts us

/-- What both say of a block and its place. -/
def Coupling.clause (C : Coupling) (b : List Stmt × Span) : List Stmt × Span :=
  (b.1.map (Stmt.mapSpan C.place), C.place b.2)

abbrev Coupling.agreeExpr (C : Coupling) : Expr → Expr → Tokens → Tokens → Prop :=
  C.agree (Expr.mapSpan C.place)

abbrev Coupling.agreeStmt (C : Coupling) : Stmt → Stmt → Tokens → Tokens → Prop :=
  C.agree (Stmt.mapSpan C.place)

/-- Both read the same statement up to places, and the tokens that are left go together as they do
behind a semicolon. -/
def Coupling.agreeBehind (C : Coupling) (s s' : Stmt) (ts us : Tokens) : Prop :=
  s.mapSpan C.place = s'.mapSpan C.place ∧ C.behind ts us

namespace Reading

variable {C : Coupling} {x : Reading α} {y : Reading β} {ts us : Tokens}
  {P : α → β → Tokens → Tokens → Prop}

theorem run_skipWord_of_not {word : Keyword} (f : Bool → Reading α)
    (h : ts.current.isKeyword word = false) :
    (skipWord word >>= f).run ts = (f false).run ts := by
  unfold skipWord
  rw [bind_assoc]
  show StateT.run ((if ts.current.isKeyword word = true then _ else _ : Reading Bool) >>= f) ts = _
  rw [h]
  rfl

namespace Echoes

theorem imp {P' : α → β → Tokens → Tokens → Prop} (h : x.Echoes C y ts us P)
    (hP : ∀ a b rest rest', P a b rest rest' → P' a b rest rest') : x.Echoes C y ts us P' where
  ok a rest hx := by
    obtain ⟨b, rest', hy, hle, hab⟩ := h.ok a rest hx
    exact ⟨b, rest', hy, hle, hP a b rest rest' hab⟩
  error := h.error

theorem and_leaves (h : x.Echoes C y ts us P) {L : α → Tokens → Prop} (hx : x.Leaves ts L) :
    x.Echoes C y ts us fun a b rest rest' => P a b rest rest' ∧ L a rest where
  ok a rest hrun := by
    obtain ⟨b, rest', hy, hle, hab⟩ := h.ok a rest hrun
    exact ⟨b, rest', hy, hle, hab, hx a rest hrun⟩
  error := h.error

theorem of_run_eq {x' : Reading α} {y' : Reading β} (h : x.Echoes C y ts us P)
    (hx : x'.run ts = x.run ts) (hy : y'.run us = y.run us) : x'.Echoes C y' ts us P where
  ok := by
    rw [hx, hy]
    exact h.ok
  error := by
    rw [hx, hy]
    exact h.error

/-- A reading that is always refused, with a fault that says nothing, binds the other to nothing. -/
theorem of_excused (hC : ∀ e, C.excused e) (h : x.Refuses ts) : x.Echoes C y ts us P where
  ok a rest hx := (h a rest hx).elim
  error e _ he := absurd (hC e) he

/-- Where the tokens of the first have come to their end, it is enough that it is refused. -/
theorem of_behind (h : C.behind ts us)
    (hended : ts.current = .finish → x.Refuses ts)
    (hinside : C.inside ts us → x.Echoes C y ts us P) : x.Echoes C y ts us P := by
  obtain h | ⟨hc, -, hC⟩ := C.inside_or_ended h
  · exact hinside h
  · exact of_excused hC (hended hc)

theorem pure {a : α} {b : β} (h : P a b ts us) :
    (Pure.pure a : Reading α).Echoes C (Pure.pure b) ts us P where
  ok a' rest hx := by
    cases hx
    exact ⟨b, us, rfl, Nat.le_refl _, h⟩
  error e he := by cases he

theorem failAt {cause : ParseCause} {s s' : Span} (h : C.place s = C.place s') :
    (Reading.failAt cause s : Reading α).Echoes C (Reading.failAt cause s' : Reading β) ts us
      P where
  ok a rest hx := by cases hx
  error e he _ := by
    cases he
    exact ⟨_, rfl, rfl, h.symm⟩

theorem fail {cause : Token → ParseCause} (h : C.inside ts us) :
    (Reading.fail cause : Reading α).Echoes C (Reading.fail cause : Reading β) ts us P where
  ok a rest hx := by cases hx
  error e he _ := by
    cases he
    exact ⟨_, rfl, by rw [C.current_eq h], (C.place_span h).symm⟩

section Sequences

variable {f : α → Reading γ} {g : β → Reading δ} {Q : γ → δ → Tokens → Tokens → Prop}

theorem bind (h : x.Echoes C y ts us P)
    (hf : ∀ a b rest rest', rest.length ≤ ts.length → P a b rest rest' →
      (f a).Echoes C (g b) rest rest' Q) : (x >>= f).Echoes C (y >>= g) ts us Q where
  ok c rest hx := by
    rw [StateT.run_bind] at hx
    cases hrun : x.run ts with
    | error e => rw [hrun] at hx; cases hx
    | ok r =>
      rw [hrun] at hx
      obtain ⟨b, rest', hy, hle, hab⟩ := h.ok r.1 r.2 hrun
      obtain ⟨d, rest'', hg, hle', hcd⟩ := (hf r.1 b r.2 rest' hle hab).ok c rest hx
      refine ⟨d, rest'', ?_, Nat.le_trans hle' hle, hcd⟩
      rw [StateT.run_bind, hy]
      exact hg
  error e he hexcused := by
    rw [StateT.run_bind] at he
    cases hrun : x.run ts with
    | error e' =>
      rw [hrun] at he
      cases he
      obtain ⟨e', hy, hvalue, hplace⟩ := h.error e hrun hexcused
      refine ⟨e', ?_, hvalue, hplace⟩
      rw [StateT.run_bind, hy]
      rfl
    | ok r =>
      rw [hrun] at he
      obtain ⟨b, rest', hy, hle, hab⟩ := h.ok r.1 r.2 hrun
      obtain ⟨e', hg, hvalue, hplace⟩ := (hf r.1 b r.2 rest' hle hab).error e he hexcused
      refine ⟨e', ?_, hvalue, hplace⟩
      rw [StateT.run_bind, hy]
      exact hg

theorem map {f : α → γ} {g : β → δ}
    (h : x.Echoes C y ts us fun a b rest rest' => Q (f a) (g b) rest rest') :
    (f <$> x).Echoes C (g <$> y) ts us Q := by
  rw [map_eq_pure_bind, map_eq_pure_bind]
  exact h.bind fun a b rest rest' _ hab => .pure hab

end Sequences

section Steps

variable {Q : α → β → Tokens → Tokens → Prop}

theorem current {f : Token → Reading α} {g : Token → Reading β} (h : C.inside ts us)
    (hf : (f ts.current).Echoes C (g ts.current) ts us Q) :
    (Reading.current >>= f).Echoes C (Reading.current >>= g) ts us Q :=
  hf.of_run_eq rfl (congrArg (fun t => (g t).run us) (C.current_eq h).symm)

theorem here {f : Span → Reading α} {g : Span → Reading β} (h : C.inside ts us)
    (hf : ∀ s s', C.place s = C.place s' → (f s).Echoes C (g s') ts us Q) :
    (Reading.here >>= f).Echoes C (Reading.here >>= g) ts us Q :=
  (hf _ _ (C.place_span h)).of_run_eq rfl rfl

theorem get {f : Tokens → Reading α} {g : Tokens → Reading β}
    (h : (f ts).Echoes C (g us) ts us Q) :
    ((MonadState.get : Reading Tokens) >>= f).Echoes C (MonadState.get >>= g) ts us Q :=
  h.of_run_eq rfl rfl

theorem isAt {mark : Symbol} {f : Bool → Reading α} {g : Bool → Reading β} (h : C.inside ts us)
    (hf : (f (ts.current.isSymbol mark)).Echoes C (g (ts.current.isSymbol mark)) ts us Q) :
    (Reading.isAt mark >>= f).Echoes C (Reading.isAt mark >>= g) ts us Q :=
  hf.of_run_eq rfl (congrArg (fun t : Token => (g (t.isSymbol mark)).run us) (C.current_eq h).symm)

/-- Both consume the same token, one that is known and not the closing one. -/
theorem advance {f : Span → Reading α} {g : Span → Reading β} {t : Token} (h : C.inside ts us)
    (hc : ts.current = t) (ht : t.isFinish = false)
    (hf : ∀ s s' rest rest', C.place s = C.place s' → C.after t rest rest' →
      rest.length < ts.length → (f s).Echoes C (g s') rest rest' Q) :
    (Reading.advance >>= f).Echoes C (Reading.advance >>= g) ts us Q := by
  have hlt : ts.advance.length < ts.length := by
    rw [congrArg List.length (Tokens.eq_cons hc ht)]
    exact Nat.lt_succ_self _
  have h := hf _ _ _ _ (C.place_span h) (hc ▸ C.after_advance h) hlt
  refine ⟨fun a rest hx => ?_, h.error⟩
  obtain ⟨b, rest', hy, hle, hab⟩ := h.ok a rest hx
  exact ⟨b, rest', hy, Nat.le_trans hle (Nat.le_of_lt hlt), hab⟩

/-- Both consume the same token, one that a table of operators or names knows. -/
theorem advance_of_some {f : Span → Reading α} {g : Span → Reading β} {op? : Token → Option γ}
    {op : γ} (h : C.inside ts us) (hop : op? ts.current = some op) (hfinish : op? .finish = none)
    (hsemicolon : op? (.symbol .semicolon) = none)
    (hf : ∀ s s' rest rest', C.place s = C.place s' → C.inside rest rest' →
      rest.length < ts.length → (f s).Echoes C (g s') rest rest' Q) :
    (Reading.advance >>= f).Echoes C (Reading.advance >>= g) ts us Q := by
  have hmark : ts.current.isSymbol .semicolon = false := by
    refine Bool.eq_false_iff.mpr fun hat => ?_
    rw [Token.eq_symbol hat, hsemicolon] at hop
    cases hop
  exact advance h rfl (Token.isFinish_of_eq_some hfinish hop) fun s s' rest rest' hs hrest =>
    hf s s' rest rest' hs (C.inside_of_after hrest hmark)

theorem skip {mark : Symbol} {f : Bool → Reading α} {g : Bool → Reading β} (h : C.inside ts us)
    (hf : ∀ rest rest', C.after (.symbol mark) rest rest' → rest.length < ts.length →
      (f true).Echoes C (g true) rest rest' Q)
    (hf' : (f false).Echoes C (g false) ts us Q) :
    (Reading.skip mark >>= f).Echoes C (Reading.skip mark >>= g) ts us Q := by
  unfold Reading.skip
  rw [bind_assoc, bind_assoc]
  apply isAt h
  split
  · rename_i hat
    rw [bind_assoc, bind_assoc]
    exact advance h (Token.eq_symbol hat) rfl fun _ _ rest rest' _ => hf rest rest'
  · exact hf'

theorem skipWord {word : Keyword} {f : Bool → Reading α} {g : Bool → Reading β}
    (h : C.inside ts us)
    (hf : ∀ rest rest', C.inside rest rest' → rest.length < ts.length →
      (f true).Echoes C (g true) rest rest' Q)
    (hf' : (f false).Echoes C (g false) ts us Q) :
    (Reading.skipWord word >>= f).Echoes C (Reading.skipWord word >>= g) ts us Q := by
  unfold Reading.skipWord
  rw [bind_assoc, bind_assoc]
  apply current h
  split
  · rename_i hat
    rw [bind_assoc, bind_assoc]
    exact advance h (Token.eq_keyword hat) rfl fun _ _ rest rest' _ => hf rest rest'
  · exact hf'

/-- Where the tokens of the first have come to their end, no `else` comes next on either side. -/
theorem skipElse {f : Bool → Reading α} {g : Bool → Reading β} (h : C.behind ts us)
    (hf : ∀ rest rest', C.inside rest rest' → rest.length < ts.length →
      (f true).Echoes C (g true) rest rest' Q)
    (hf' : (f false).Echoes C (g false) ts us Q) :
    (Reading.skipWord .«else» >>= f).Echoes C (Reading.skipWord .«else» >>= g) ts us Q := by
  obtain h | ⟨hts, hus, -⟩ := C.inside_or_ended h
  · exact skipWord h hf hf'
  · have hx : ts.current.isKeyword .«else» = false := by rw [hts]; rfl
    have hy : us.current.isKeyword .«else» = false :=
      Bool.eq_false_iff.mpr fun hat => hus (Token.eq_keyword hat)
    exact hf'.of_run_eq (run_skipWord_of_not f hx) (run_skipWord_of_not g hy)

theorem expect {mark : Symbol} {f : Span → Reading α} {g : Span → Reading β} (h : C.inside ts us)
    (hf : ∀ s s' rest rest', C.place s = C.place s' → C.after (.symbol mark) rest rest' →
      rest.length < ts.length → (f s).Echoes C (g s') rest rest' Q) :
    (Reading.expect mark >>= f).Echoes C (Reading.expect mark >>= g) ts us Q := by
  unfold Reading.expect
  rw [bind_assoc, bind_assoc]
  apply isAt h
  split
  · rename_i hat
    exact advance h (Token.eq_symbol hat) rfl hf
  · exact (fail h (P := fun _ _ _ _ => False)).bind nofun

theorem identifier {f : String × Span → Reading α} {g : String × Span → Reading β}
    (h : C.inside ts us)
    (hf : ∀ name s s' rest rest', C.place s = C.place s' → C.inside rest rest' →
      rest.length < ts.length → (f (name, s)).Echoes C (g (name, s')) rest rest' Q) :
    (Reading.identifier >>= f).Echoes C (Reading.identifier >>= g) ts us Q := by
  unfold Reading.identifier
  rw [bind_assoc, bind_assoc]
  apply current h
  split
  · rename_i name hc
    rw [bind_assoc, bind_assoc]
    exact advance h hc rfl (hf name)
  all_goals exact (fail h (P := fun _ _ _ _ => False)).bind nofun

end Steps

end Echoes

section Repetitions

variable {item item' : Reading α} {close : Symbol}

/-- Each turn consumes an operator, so the number of tokens left is fuel enough for both. -/
theorem echoes_chain {view : α → γ} {op? : Token → Option β} {join : β → α → α → α}
    (hfinish : op? .finish = none) (hsemicolon : op? (.symbol .semicolon) = none)
    (hitem : ∀ {ts us}, C.inside ts us → item.Echoes C item' ts us (C.agree view))
    (hjoin : ∀ op {a a' b b'}, view a = view a' → view b = view b' →
      view (join op a b) = view (join op a' b')) (fuel : Nat) :
    ∀ {a a' ts us}, C.agree view a a' ts us → ts.length ≤ fuel →
      (chain item op? join fuel a).Echoes C (chain item' op? join (fuel + C.more) a') ts us
        (C.agree view) := by
  induction fuel with
  | zero =>
    intro a a' ts us h hfuel
    rw [C.more_eq_zero_of_length (C.behind_of_inside h.2) hfuel]
    exact .pure h
  | succ fuel ih =>
    intro a a' ts us h hfuel
    rw [Nat.add_right_comm]
    unfold chain
    apply Echoes.current h.2
    split
    · exact .pure h
    · rename_i op hop
      refine .advance_of_some h.2 hop hfinish hsemicolon fun _ _ rest rest' _ hrest hlt => ?_
      refine (hitem hrest).bind fun b b' rest rest' hle hb => ?_
      exact ih ⟨hjoin op h.1 hb.1, hb.2⟩ (by omega)

theorem echoes_leftAssociative {view : α → γ} {op? : Token → Option β} {join : β → α → α → α}
    (hfinish : op? .finish = none) (hsemicolon : op? (.symbol .semicolon) = none)
    (hitem : ∀ {ts us}, C.inside ts us → item.Echoes C item' ts us (C.agree view))
    (hjoin : ∀ op {a a' b b'}, view a = view a' → view b = view b' →
      view (join op a b) = view (join op a' b')) (h : C.inside ts us) :
    (leftAssociative item op? join).Echoes C (leftAssociative item' op? join) ts us
      (C.agree view) := by
  unfold leftAssociative
  refine (hitem h).bind fun a a' rest rest' _ ha => ?_
  apply Echoes.current ha.2
  split
  · apply Echoes.get
    rw [C.length_eq (C.behind_of_inside ha.2)]
    exact echoes_chain hfinish hsemicolon hitem hjoin _ ha (Nat.le_refl _)
  · exact .pure ha

theorem echoes_itemsUntil (view : α → γ)
    (hitem : ∀ {ts us}, C.inside ts us → item.Echoes C item' ts us (C.agree view)) (fuel : Nat) :
    ∀ {ts us}, C.inside ts us → ts.length ≤ fuel →
      (itemsUntil close item fuel).Echoes C (itemsUntil close item' (fuel + C.more)) ts us
        (C.agree (List.map view)) := by
  induction fuel with
  | zero =>
    intro ts us h hfuel
    rw [C.more_eq_zero_of_length (C.behind_of_inside h) hfuel]
    exact .pure ⟨rfl, h⟩
  | succ fuel ih =>
    intro ts us h hfuel
    rw [Nat.add_right_comm]
    unfold itemsUntil
    apply Echoes.isAt h
    split
    · exact .pure ⟨rfl, h⟩
    · refine (hitem h).bind fun a a' rest rest' hle ha => ?_
      apply Echoes.skip ha.2
      · intro rest rest' hrest hlt
        refine (ih hrest (by omega)).bind fun as as' rest rest' _ has => ?_
        exact .pure ⟨by rw [List.map_cons, List.map_cons, ha.1, has.1], has.2⟩
      · exact .pure ⟨by rw [List.map_singleton, List.map_singleton, ha.1], ha.2⟩

theorem echoes_listUntil (view : α → γ)
    (hitem : ∀ {ts us}, C.inside ts us → item.Echoes C item' ts us (C.agree view))
    (hclose : close ≠ .semicolon) (h : C.inside ts us) :
    (listUntil close item).Echoes C (listUntil close item') ts us fun r r' rest rest' =>
      r.1.map view = r'.1.map view ∧ C.place r.2 = C.place r'.2 ∧ C.inside rest rest' := by
  unfold listUntil
  apply Echoes.get
  rw [C.length_eq (C.behind_of_inside h)]
  refine (echoes_itemsUntil view hitem _ h (Nat.le_refl _)).bind fun as as' rest rest' _ has => ?_
  refine Echoes.expect has.2 fun s s' rest rest' hs hrest _ => ?_
  exact .pure ⟨has.1, hs, C.inside_of_after hrest (beq_eq_false_iff_ne.mpr hclose)⟩

variable {statement statement' : Reading Stmt}

/-- Each turn consumes a statement, so the number of tokens left is fuel enough for both.
Where the tokens of the first have come to their end, its block is never closed. -/
theorem echoes_statementsUntilBrace
    (hstatement : ∀ {ts us}, C.inside ts us → statement.Echoes C statement' ts us C.agreeBehind)
    (hlt : ∀ ts, statement.Leaves ts fun _ rest => rest.length < ts.length) (fuel : Nat) :
    ∀ {ts us}, C.behind ts us → ts.length ≤ fuel →
      (statementsUntilBrace statement fuel).Echoes C
        (statementsUntilBrace statement' (fuel + C.more)) ts us fun body body' rest rest' =>
          body.map (Stmt.mapSpan C.place) = body'.map (Stmt.mapSpan C.place) ∧
            C.behind rest rest' := by
  induction fuel with
  | zero =>
    intro ts us h hfuel
    rw [C.more_eq_zero_of_length h hfuel]
    exact .pure ⟨rfl, h⟩
  | succ fuel ih =>
    intro ts us h hfuel
    rw [Nat.add_right_comm]
    unfold statementsUntilBrace
    apply Echoes.of_behind h
    · intro hc
      apply Leaves.current
      rw [hc]
      exact .fail
    · intro h
      apply Echoes.current h
      split
      · exact .pure ⟨rfl, C.behind_of_inside h⟩
      · exact .fail h
      · refine ((hstatement h).and_leaves (hlt ts)).bind fun s s' rest rest' _ hs => ?_
        refine (ih hs.1.2 (by omega)).bind fun body body' rest rest' _ hbody => ?_
        exact .pure ⟨by rw [List.map_cons, List.map_cons, hs.1.1, hbody.1], hbody.2⟩

theorem echoes_block
    (hstatement : ∀ {ts us}, C.inside ts us → statement.Echoes C statement' ts us C.agreeBehind)
    (hlt : ∀ ts, statement.Leaves ts fun _ rest => rest.length < ts.length) (h : C.inside ts us) :
    (block statement).Echoes C (block statement') ts us (C.agree C.clause) := by
  unfold block
  refine Echoes.expect h fun start start' ts us hstart h _ => Echoes.get ?_
  have h' : C.behind ts us := C.behind_of_inside h
  rw [C.length_eq h']
  refine (echoes_statementsUntilBrace hstatement hlt _ h' (Nat.le_refl _)).bind ?_
  intro body body' rest rest' _ hbody
  apply Echoes.of_behind hbody.2
  · intro hc
    unfold Reading.expect
    rw [bind_assoc]
    apply Leaves.isAt
    rw [hc]
    exact Refuses.bind .fail
  · intro h
    refine Echoes.expect h fun stop stop' rest rest' hstop hrest _ => ?_
    exact .pure ⟨Prod.ext hbody.1 (C.place_merge hstart hstop), hrest⟩

end Repetitions

end Reading

end ModuleLoader.Script
