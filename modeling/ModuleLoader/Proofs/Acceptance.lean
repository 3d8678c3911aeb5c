import ModuleLoader.Proofs.Spellings

/-! Laws of readings that succeed: what a composed reading makes of tokens that are known, told by
what its parts make of theirs. Where the tokens stand does not matter. -/
namespace ModuleLoader.Script

variable {α β γ : Type}

/-- On all tokens with these values the reading ends, and this holds of what it read and of the
values of the tokens that are left. -/
def Reading.Gives (x : Reading α) (vs : List Token) (Q : α → List Token → Prop) : Prop :=
  ∀ ts : Tokens, ts.map Spanned.value = vs →
    ∃ a rest, x.run ts = .ok (a, rest) ∧ Q a (rest.map Spanned.value)

/-- The token that comes next. -/
def Token.ahead (vs : List Token) : Token :=
  vs.headD .finish

@[simp] theorem Token.ahead_cons (t : Token) (vs : List Token) : Token.ahead (t :: vs) = t := rfl

/-- The statement does not go on with the token. -/
def Stmt.Closes (s : Stmt) (t : Token) : Prop :=
  t ≠ .keyword .«finally» ∧ (s.dangles = true → t ≠ .keyword .«else»)

theorem Tokens.current_eq {ts : Tokens} {vs : List Token} (h : ts.map Spanned.value = vs) :
    ts.current = Token.ahead vs := by
  subst h
  cases ts <;> rfl

namespace Reading

variable {x : Reading α} {f : α → Reading β} {vs : List Token} {P : α → List Token → Prop}
  {Q : β → List Token → Prop}

namespace Gives

theorem pure {a : α} (h : P a vs) : (Pure.pure a : Reading α).Gives vs P := by
  rintro ts rfl
  exact ⟨a, ts, rfl, h⟩

theorem bind (h : x.Gives vs P) (hf : ∀ a rest, P a rest → (f a).Gives rest Q) :
    (x >>= f).Gives vs Q := by
  intro ts hts
  obtain ⟨a, rest, hx, ha⟩ := h ts hts
  obtain ⟨b, rest', hb, hQ⟩ := hf a _ ha rest rfl
  refine ⟨b, rest', ?_, hQ⟩
  rw [StateT.run_bind, hx]
  exact hb

theorem current {f : Token → Reading β} (h : (f (Token.ahead vs)).Gives vs Q) :
    (Reading.current >>= f).Gives vs Q := by
  intro ts hts
  rw [← Tokens.current_eq hts] at h
  exact h ts hts

theorem here {f : Span → Reading β} (h : ∀ span, (f span).Gives vs Q) :
    (Reading.here >>= f).Gives vs Q :=
  fun ts hts => h ts.span ts hts

theorem get {f : Tokens → Reading β}
    (h : ∀ ts : Tokens, ts.length = vs.length → (f ts).Gives vs Q) :
    ((MonadState.get : Reading Tokens) >>= f).Gives vs Q :=
  fun ts hts => h ts (by rw [← hts, List.length_map]) ts hts

theorem isAt {mark : Symbol} {f : Bool → Reading β}
    (h : (f ((Token.ahead vs).isSymbol mark)).Gives vs Q) :
    (Reading.isAt mark >>= f).Gives vs Q := by
  unfold Reading.isAt
  rw [bind_assoc]
  exact current h

theorem advance {t : Token} {f : Span → Reading β} (ht : t.isFinish = false)
    (h : ∀ span, (f span).Gives vs Q) : (Reading.advance >>= f).Gives (t :: vs) Q := by
  rintro (_ | ⟨⟨t, span⟩, ts⟩) hts
  · cases hts
  · obtain ⟨rfl, rfl⟩ := List.cons.inj hts
    obtain ⟨b, rest, hb, hQ⟩ := h span ts rfl
    refine ⟨b, rest, ?_, hQ⟩
    have hadvance : Tokens.advance (⟨t, span⟩ :: ts) = ts := if_neg (by simp [ht])
    rw [← hb]
    show (f span).run (Tokens.advance (⟨t, span⟩ :: ts)) = _
    rw [hadvance]

theorem skip {mark : Symbol} {f : Bool → Reading β} (h : (f true).Gives vs Q) :
    (Reading.skip mark >>= f).Gives (.symbol mark :: vs) Q := by
  unfold Reading.skip
  rw [bind_assoc]
  apply isAt
  have hat : (Token.symbol mark).isSymbol mark = true := beq_self_eq_true mark
  rw [Token.ahead_cons, hat, if_pos rfl, bind_assoc]
  exact advance rfl fun _ => h

theorem skip_not {mark : Symbol} {f : Bool → Reading β}
    (hat : (Token.ahead vs).isSymbol mark = false) (h : (f false).Gives vs Q) :
    (Reading.skip mark >>= f).Gives vs Q := by
  unfold Reading.skip
  rw [bind_assoc]
  apply isAt
  rw [hat]
  exact h

theorem skipWord {word : Keyword} {f : Bool → Reading β} (h : (f true).Gives vs Q) :
    (Reading.skipWord word >>= f).Gives (.keyword word :: vs) Q := by
  unfold Reading.skipWord
  rw [bind_assoc]
  apply current
  have hat : (Token.keyword word).isKeyword word = true := beq_self_eq_true word
  rw [Token.ahead_cons, hat, if_pos rfl, bind_assoc]
  exact advance rfl fun _ => h

theorem skipWord_not {word : Keyword} {f : Bool → Reading β}
    (hat : (Token.ahead vs).isKeyword word = false) (h : (f false).Gives vs Q) :
    (Reading.skipWord word >>= f).Gives vs Q := by
  unfold Reading.skipWord
  rw [bind_assoc]
  apply current
  rw [hat]
  exact h

theorem expect {mark : Symbol} {f : Span → Reading β} (h : ∀ span, (f span).Gives vs Q) :
    (Reading.expect mark >>= f).Gives (.symbol mark :: vs) Q := by
  unfold Reading.expect
  rw [bind_assoc]
  apply isAt
  have hat : (Token.symbol mark).isSymbol mark = true := beq_self_eq_true mark
  rw [Token.ahead_cons, hat, if_pos rfl]
  exact advance rfl h

theorem identifier {name : String} {f : String × Span → Reading β}
    (h : ∀ span, (f (name, span)).Gives vs Q) :
    (Reading.identifier >>= f).Gives (.identifier name :: vs) Q := by
  unfold Reading.identifier
  rw [bind_assoc]
  apply current
  rw [Token.ahead_cons]
  dsimp only
  rw [bind_assoc]
  exact advance rfl h

end Gives

theorem run_current (f : Token → Reading β) (ts : Tokens) :
    (Reading.current >>= f).run ts = (f ts.current).run ts := rfl

/-- A reading that takes nothing. -/
theorem gives_iff_of_run {a : α} (h : ∀ ts : Tokens, ts.map Spanned.value = vs →
    x.run ts = .ok (a, ts)) : x.Gives vs P ↔ P a vs := by
  constructor
  · intro hx
    have hts : (vs.map fun t => (⟨t, default⟩ : Spanned Token)).map Spanned.value = vs := by
      rw [List.map_map]
      exact List.map_id vs
    obtain ⟨b, rest, hb, hP⟩ := hx _ hts
    rw [h _ hts] at hb
    obtain ⟨rfl, rfl⟩ := Prod.mk.inj (Except.ok.inj hb)
    rwa [hts] at hP
  · rintro hP ts rfl
    exact ⟨a, ts, h ts rfl, hP⟩

/-! ### Chains -/

section Chains

variable {operand : Reading α} {op? : Token → Option γ} {join : γ → α → α → α} {a : α} {fuel : Nat}
  {Q : α → List Token → Prop}

theorem gives_chain_end (hop : op? (Token.ahead vs) = none) :
    (chain operand op? join fuel a).Gives vs Q ↔ Q a vs := by
  refine gives_iff_of_run fun ts hts => ?_
  cases fuel with
  | zero => rfl
  | succ fuel =>
    unfold chain
    rw [run_current, Tokens.current_eq hts, hop]
    rfl

theorem gives_chain_turn {t : Token} {op : γ} (hop : op? t = some op) (ht : t.isFinish = false)
    (h : operand.Gives vs P)
    (hrest : ∀ b rest, P b rest → (chain operand op? join fuel (join op a b)).Gives rest Q) :
    (chain operand op? join (fuel + 1) a).Gives (t :: vs) Q := by
  unfold chain
  apply Gives.current
  rw [Token.ahead_cons, hop]
  exact Gives.advance ht fun _ => h.bind hrest

/-- What a chain makes of its first operand it makes with any fuel that is as much as the tokens
that are left. -/
theorem gives_leftAssociative (h : operand.Gives vs P)
    (hrest : ∀ b rest, P b rest → ∀ fuel, rest.length ≤ fuel →
      (chain operand op? join fuel b).Gives rest Q) :
    (leftAssociative operand op? join).Gives vs Q := by
  unfold leftAssociative
  refine h.bind fun b rest hb => Gives.current ?_
  split
  · exact Gives.get fun ts hts => hrest b rest hb _ (Nat.le_of_eq hts.symm)
  · rename_i hop
    rw [Bool.not_eq_true, Option.isSome_eq_false_iff, Option.isNone_iff_eq_none] at hop
    exact .pure ((gives_chain_end hop).mp (hrest b rest hb _ (Nat.le_refl _)))

end Chains

/-! ### Lists -/

section Lists

open Spelling

variable {item : Reading α} {spell : β → Spelling} {out : α → γ} {want : β → γ}

/-- Items that are read as they are wanted, whatever follows their tokens that may follow in a
list, are read off the list. -/
theorem gives_itemsUntil {close : Symbol} (hclose : close ≠ .comma) (vs : List Token) (xs : List β)
    (hbegins : ∀ x ∈ xs, ∀ vs, (Token.ahead ((spell x).tokens ++ vs)).isSymbol close = false)
    (hitem : ∀ x ∈ xs, ∀ vs, Token.ahead vs = .symbol .comma ∨ Token.ahead vs = .symbol close →
      item.Gives ((spell x).tokens ++ vs) fun y rest => out y = want x ∧ rest = vs) :
    ∀ fuel, ((commas (xs.map spell)).tokens ++ .symbol close :: vs).length ≤ fuel →
      (itemsUntil close item fuel).Gives ((commas (xs.map spell)).tokens ++ .symbol close :: vs)
        fun ys rest => ys.map out = xs.map want ∧ rest = .symbol close :: vs := by
  induction xs with
  | nil =>
    rintro (_ | fuel) hfuel
    · cases hfuel
    · unfold itemsUntil
      apply Gives.isAt
      have hat : (Token.symbol close).isSymbol close = true := beq_self_eq_true close
      show Gives (if (Token.symbol close).isSymbol close = true then _ else _) _ _
      rw [hat, if_pos rfl]
      exact .pure ⟨rfl, rfl⟩
  | cons x xs ih =>
    obtain ⟨hx, hxs⟩ := List.forall_mem_cons.mp hbegins
    obtain ⟨hx', hxs'⟩ := List.forall_mem_cons.mp hitem
    rintro (_ | fuel) hfuel
    · simp only [List.length_append, List.length_cons] at hfuel
      omega
    unfold itemsUntil
    apply Gives.isAt
    cases xs with
    | nil =>
      have hcomma : (Token.symbol close).isSymbol .comma = false := beq_false_of_ne hclose
      simp only [List.map_cons, List.map_nil, commas] at hfuel ⊢
      rw [hx, if_neg Bool.false_ne_true]
      refine (hx' _ (.inr rfl)).bind ?_
      rintro y _ ⟨hy, rfl⟩
      refine Gives.skip_not hcomma ?_
      exact .pure ⟨by simp only [List.map_cons, List.map_nil, hy], rfl⟩
    | cons x' xs =>
      have htokens : (commas ((x :: x' :: xs).map spell)).tokens ++ .symbol close :: vs =
          (spell x).tokens ++ .symbol .comma ::
            ((commas ((x' :: xs).map spell)).tokens ++ .symbol close :: vs) := by
        simp only [List.map_cons, commas, tokens_append, tokens_mark, List.append_assoc,
          List.cons_append, List.nil_append]
      rw [htokens] at hfuel ⊢
      rw [hx, if_neg Bool.false_ne_true]
      refine (hx' _ (.inl rfl)).bind ?_
      rintro y _ ⟨hy, rfl⟩
      refine Gives.skip ?_
      rw [if_pos rfl]
      have hle : ((commas ((x' :: xs).map spell)).tokens ++ .symbol close :: vs).length ≤ fuel := by
        rw [List.length_append, List.length_cons] at hfuel
        omega
      refine (ih hxs hxs' fuel hle).bind ?_
      rintro ys _ ⟨hys, rfl⟩
      exact .pure ⟨by rw [List.map_cons, List.map_cons (l := x' :: xs), hy, hys], rfl⟩

theorem gives_listUntil {close : Symbol} (hclose : close ≠ .comma) (vs : List Token) (xs : List β)
    (hbegins : ∀ x ∈ xs, ∀ vs, (Token.ahead ((spell x).tokens ++ vs)).isSymbol close = false)
    (hitem : ∀ x ∈ xs, ∀ vs, Token.ahead vs = .symbol .comma ∨ Token.ahead vs = .symbol close →
      item.Gives ((spell x).tokens ++ vs) fun y rest => out y = want x ∧ rest = vs) :
    (listUntil close item).Gives ((commas (xs.map spell)).tokens ++ .symbol close :: vs)
      fun r rest => r.1.map out = xs.map want ∧ rest = vs := by
  unfold listUntil
  refine Gives.get fun ts hts => ?_
  refine (gives_itemsUntil hclose vs xs hbegins hitem _ (Nat.le_of_eq hts.symm)).bind ?_
  rintro ys _ ⟨hys, rfl⟩
  exact Gives.expect fun span => .pure ⟨hys, rfl⟩

end Lists

/-! ### Statements -/

section Statements

variable {statement : Reading Stmt} {body : List Stmt} {vs : List Token}

theorem begins_spelled (s : Stmt) (vs : List Token) :
    (Token.ahead ((s.layout true).tokens ++ vs)).BeginsStatement := by
  obtain ⟨t, rest, hts, ht⟩ := s.begins_layout
  rw [hts]
  exact ht

theorem closes_spelled {s : Stmt} (vs : List Token) (h : s.Closes (Token.ahead vs))
    (body : List Stmt) :
    s.Closes (Token.ahead (spelled body ++ vs)) := by
  cases body with
  | nil => exact h
  | cons s' body =>
    rw [spelled, List.flatMap_cons, List.append_assoc]
    have hbegins := begins_spelled s' (spelled body ++ vs)
    exact ⟨hbegins.finalizer, fun _ => hbegins.alternative⟩

theorem gives_statementsUntilBrace
    (hstatement : ∀ s ∈ body, ∀ vs, s.Closes (Token.ahead vs) →
      statement.Gives ((s.layout true).tokens ++ vs) fun s' rest => s'.bare = s.bare ∧ rest = vs) :
    ∀ fuel, (spelled body ++ .symbol .rightBrace :: vs).length ≤ fuel →
      (statementsUntilBrace statement fuel).Gives (spelled body ++ .symbol .rightBrace :: vs)
        fun body' rest => body'.map Stmt.bare = body.map Stmt.bare ∧
          rest = .symbol .rightBrace :: vs := by
  induction body with
  | nil =>
    rintro (_ | fuel) hfuel
    · cases hfuel
    · unfold statementsUntilBrace
      exact Gives.current (.pure ⟨rfl, rfl⟩)
  | cons s body ih =>
    obtain ⟨hs, hbody⟩ := List.forall_mem_cons.mp hstatement
    have htokens : spelled (s :: body) ++ .symbol .rightBrace :: vs =
        (s.layout true).tokens ++ (spelled body ++ .symbol .rightBrace :: vs) :=
      List.append_assoc ..
    have hbegins := begins_spelled s (spelled body ++ .symbol .rightBrace :: vs)
    rintro (_ | fuel) hfuel
    · simp only [List.length_append, List.length_cons] at hfuel
      omega
    rw [htokens] at hfuel ⊢
    unfold statementsUntilBrace
    apply Gives.current
    split
    · rename_i h
      exact absurd h hbegins.brace
    · rename_i h
      rw [h] at hbegins
      cases hbegins.finish
    · have hlt : (spelled body ++ .symbol .rightBrace :: vs).length ≤ fuel := by
        obtain ⟨t, rest, hts, -⟩ := s.begins_layout
        rw [hts, List.length_append, List.length_cons] at hfuel
        omega
      have hbrace : s.Closes (.symbol .rightBrace) := ⟨nofun, nofun⟩
      refine (hs _ (closes_spelled (.symbol .rightBrace :: vs) hbrace body)).bind ?_
      rintro s' _ ⟨hs', rfl⟩
      refine (ih hbody fuel hlt).bind ?_
      rintro body' _ ⟨hbody', rfl⟩
      exact .pure ⟨by rw [List.map_cons, List.map_cons, hs', hbody'], rfl⟩

theorem gives_block
    (hstatement : ∀ s ∈ body, ∀ vs, s.Closes (Token.ahead vs) →
      statement.Gives ((s.layout true).tokens ++ vs) fun s' rest => s'.bare = s.bare ∧ rest = vs)
    (vs : List Token) :
    (block statement).Gives ((blockLayout body).tokens ++ vs) fun b rest =>
      b.1.map Stmt.bare = body.map Stmt.bare ∧ rest = vs := by
  rw [tokens_blockLayout, List.append_assoc]
  unfold block
  refine Gives.expect fun start => Gives.get fun ts hts => ?_
  refine (gives_statementsUntilBrace hstatement _ (Nat.le_of_eq hts.symm)).bind ?_
  rintro body' _ ⟨hbody', rfl⟩
  exact Gives.expect fun stop => .pure ⟨hbody', rfl⟩

theorem gives_statementsUntilEnd
    (hstatement : ∀ s ∈ body, ∀ vs, s.Closes (Token.ahead vs) →
      statement.Gives ((s.layout true).tokens ++ vs) fun s' rest => s'.bare = s.bare ∧ rest = vs) :
    ∀ fuel, (spelled body ++ [Token.finish]).length ≤ fuel →
      (statementsUntilEnd statement fuel).Gives (spelled body ++ [Token.finish])
        fun body' _ => body'.map Stmt.bare = body.map Stmt.bare := by
  induction body with
  | nil =>
    rintro (_ | fuel) hfuel
    · cases hfuel
    · unfold statementsUntilEnd
      exact Gives.current (.pure rfl)
  | cons s body ih =>
    obtain ⟨hs, hbody⟩ := List.forall_mem_cons.mp hstatement
    have htokens : spelled (s :: body) ++ [Token.finish] =
        (s.layout true).tokens ++ (spelled body ++ [Token.finish]) :=
      List.append_assoc ..
    rintro (_ | fuel) hfuel
    · simp only [List.length_append, List.length_cons] at hfuel
      omega
    rw [htokens] at hfuel ⊢
    unfold statementsUntilEnd
    apply Gives.current
    rw [(begins_spelled s _).finish, if_neg Bool.false_ne_true]
    have hlt : (spelled body ++ [Token.finish]).length ≤ fuel := by
      obtain ⟨t, rest, hts, -⟩ := s.begins_layout
      rw [hts, List.length_append, List.length_cons] at hfuel
      omega
    have hfinish : s.Closes Token.finish := ⟨nofun, nofun⟩
    refine (hs _ (closes_spelled [Token.finish] hfinish body)).bind ?_
    rintro s' _ ⟨hs', rfl⟩
    refine (ih hbody fuel hlt).bind fun body' _ hbody' => ?_
    exact .pure (by rw [List.map_cons, List.map_cons, hs', hbody'])

end Statements

end Reading

end ModuleLoader.Script
