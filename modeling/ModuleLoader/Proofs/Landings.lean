import ModuleLoader.Proofs.Readings
import ModuleLoader.Proofs.Stretches
import ModuleLoader.Script.Tree.Program

/-! Laws of readings, told by where in a source they land. The tokens that are left lie behind some
character of the source; a reading that ends leaves tokens that lie behind another one, and says
something about what it read and where that is; one that fails does so at an exact place. -/
namespace ModuleLoader.Script

variable {cs : List Char} {i j k : Nat} {α β γ : Type}

/-- The tokens lie behind a character of the source, one behind the other; the closing one has the
end of the source. -/
inductive Tokens.Behind (cs : List Char) : Nat → Tokens → Prop where
  | finish {i : Nat} (hi : i ≤ cs.length) :
      Behind cs i [⟨.finish, .cut cs cs.length cs.length⟩]
  | token {i a b : Nat} {t : Spanned Token} {ts : Tokens} (hia : i ≤ a) (hab : a < b)
      (ht : t.value.isFinish = false) (hspan : t.span = .cut cs a b) (hts : Behind cs b ts) :
      Behind cs i (t :: ts)

theorem Laid.behind {before rest : List Char} {xs : List (Spanned Lexeme)}
    (h : Laid before rest xs) (hcs : cs = before ++ rest) (hfaults : faultsOf xs = []) :
    Tokens.Behind cs before.length
      (tokensOf xs ++ [⟨.finish, .cut cs cs.length cs.length⟩]) := by
  induction h with
  | nil => exact .finish (by simp [hcs])
  | @gap before text rest xs hne hgap hrest ih =>
    have hbehind := ih (by rw [hcs, List.append_assoc]) hfaults
    generalize tokensOf xs ++ _ = ts at hbehind
    rw [List.length_append] at hbehind
    cases hbehind with
    | finish hi => exact .finish (by omega)
    | token hia hab ht hspan hts => exact .token (by omega) hab ht hspan hts
  | @find before text rest x xs hne hfind hspan hrest ih =>
    obtain ⟨value, span⟩ := x
    cases value with
    | gap => cases hfind
    | fault f => cases hfaults
    | token t =>
      refine .token (Nat.le_refl _) ?_ (by simpa [Lexeme.isFind] using hfind) ?_
        (ih (by rw [hcs, List.append_assoc]) hfaults)
      · rw [List.length_append]
        exact Nat.lt_add_of_pos_right (List.length_pos_iff.mpr hne)
      · rw [List.length_append]
        exact hspan.trans (Span.of_eq_cut (hcs.trans (List.append_assoc ..).symm))

namespace Tokens.Behind

variable {ts : Tokens}

theorem le_length (h : ts.Behind cs i) : i ≤ cs.length := by
  induction h with
  | finish hi => exact hi
  | token hia hab _ _ _ ih => omega

theorem mono (h : ts.Behind cs j) (hij : i ≤ j) : ts.Behind cs i := by
  cases h with
  | finish hj => exact .finish (hij.trans hj)
  | token hja hab ht hspan hts => exact .token (hij.trans hja) hab ht hspan hts

/-- The token to come has an exact place, the closing one as any other. -/
theorem exact_span (h : ts.Behind cs i) : ts.span.Exact cs := by
  cases h with
  | finish hi => exact Span.exact_cut (Nat.le_refl _)
  | token hia hab ht hspan hts =>
    rw [Tokens.span, hspan]
    exact Span.exact_cut (Nat.le_of_lt hab)

/-- The token to come, if it is not the closing one, takes up a stretch of its own. -/
theorem advance (h : ts.Behind cs i) (hfinish : ts.current.isFinish = false) :
    ∃ a b, i ≤ a ∧ a < b ∧ ts.span = .cut cs a b ∧ ts.advance.Behind cs b := by
  cases h with
  | finish hi => cases hfinish
  | @token _ a b t ts hia hab ht hspan hts =>
    refine ⟨a, b, hia, hab, hspan, ?_⟩
    rwa [Tokens.advance, if_neg (by simp [ht])]

end Tokens.Behind

/-- If the reading ends, it leaves tokens that lie behind a character of the source, and this holds
of what it read and of that character; if it fails, it does so at an exact place. -/
def Reading.Lands (cs : List Char) (x : Reading α) (ts : Tokens) (Q : α → Nat → Prop) : Prop :=
  (∀ a rest, x.run ts = .ok (a, rest) → ∃ j, Tokens.Behind cs j rest ∧ Q a j) ∧
    ∀ e, x.run ts = .error e → e.span.Exact cs

namespace Reading

variable {x : Reading α} {f : α → Reading β} {ts : Tokens} {P : α → Nat → Prop}
  {Q : β → Nat → Prop}

namespace Lands

theorem imp {P' : α → Nat → Prop} (h : x.Lands cs ts P)
    (hP : ∀ a j, j ≤ cs.length → P a j → P' a j) :
    x.Lands cs ts P' := by
  refine ⟨fun a rest hx => ?_, h.2⟩
  obtain ⟨j, hrest, ha⟩ := h.1 a rest hx
  exact ⟨j, hrest, hP a j hrest.le_length ha⟩

theorem pure {a : α} (hts : ts.Behind cs i) (h : P a i) :
    (Pure.pure a : Reading α).Lands cs ts P := by
  refine ⟨fun a' rest hx => ?_, nofun⟩
  cases hx
  exact ⟨i, hts, h⟩

theorem failAt {cause : ParseCause} {span : Span} (h : span.Exact cs) :
    (Reading.failAt cause span : Reading α).Lands cs ts P := by
  refine ⟨nofun, fun e hx => ?_⟩
  cases hx
  exact h

theorem fail {cause : Token → ParseCause} (hts : ts.Behind cs i) :
    (Reading.fail cause : Reading α).Lands cs ts P := by
  refine ⟨nofun, fun e hx => ?_⟩
  cases hx
  exact hts.exact_span

theorem bind (h : x.Lands cs ts P)
    (hf : ∀ a j rest, rest.Behind cs j → P a j → (f a).Lands cs rest Q) :
    (x >>= f).Lands cs ts Q := by
  unfold Lands
  simp only [StateT.run_bind]
  cases hrun : x.run ts with
  | error e =>
    refine ⟨nofun, fun e' he => ?_⟩
    cases he
    exact h.2 e hrun
  | ok r =>
    obtain ⟨j, hrest, ha⟩ := h.1 r.1 r.2 hrun
    exact hf r.1 j r.2 hrest ha

theorem map {g : α → β} (h : x.Lands cs ts fun a j => Q (g a) j) : (g <$> x).Lands cs ts Q := by
  rw [map_eq_pure_bind]
  exact h.bind fun a j rest hrest ha => .pure hrest ha

theorem current {f : Token → Reading β} (h : (f ts.current).Lands cs ts Q) :
    (Reading.current >>= f).Lands cs ts Q := h

theorem here {f : Span → Reading β} (h : (f ts.span).Lands cs ts Q) :
    (Reading.here >>= f).Lands cs ts Q := h

theorem get {f : Tokens → Reading β} (h : (f ts).Lands cs ts Q) :
    ((MonadState.get : Reading Tokens) >>= f).Lands cs ts Q := h

theorem isAt {mark : Symbol} {f : Bool → Reading β}
    (h : (f (ts.current.isSymbol mark)).Lands cs ts Q) :
    (Reading.isAt mark >>= f).Lands cs ts Q := h

/-- The token to come is one that is known, and not the closing one. -/
theorem advance {f : Span → Reading β} {t : Token} (hts : ts.Behind cs i) (hc : ts.current = t)
    (ht : t.isFinish = false)
    (h : ∀ a b, i ≤ a → a < b → ts.span = .cut cs a b → ts.advance.Behind cs b →
      (f (.cut cs a b)).Lands cs ts.advance Q) : (Reading.advance >>= f).Lands cs ts Q := by
  subst hc
  obtain ⟨a, b, hia, hab, hspan, hrest⟩ := hts.advance ht
  show (f ts.span).Lands cs ts.advance Q
  rw [hspan]
  exact h a b hia hab hspan hrest

theorem skip {mark : Symbol} {f : Bool → Reading β} (hts : ts.Behind cs i)
    (h : ∀ b j rest, i ≤ j → rest.Behind cs j → (f b).Lands cs rest Q) :
    (Reading.skip mark >>= f).Lands cs ts Q := by
  unfold Reading.skip
  rw [bind_assoc]
  apply isAt
  split
  · rename_i hat
    rw [bind_assoc]
    refine advance hts (Token.eq_symbol hat) rfl fun a b hia hab _ hrest => ?_
    exact h true b _ (by omega) hrest
  · exact h false i ts (Nat.le_refl i) hts

theorem skipWord {word : Keyword} {f : Bool → Reading β} (hts : ts.Behind cs i)
    (h : ∀ b j rest, i ≤ j → rest.Behind cs j → (f b).Lands cs rest Q) :
    (Reading.skipWord word >>= f).Lands cs ts Q := by
  unfold Reading.skipWord
  rw [bind_assoc]
  apply current
  split
  · rename_i hat
    rw [bind_assoc]
    refine advance hts (Token.eq_keyword hat) rfl fun a b hia hab _ hrest => ?_
    exact h true b _ (by omega) hrest
  · exact h false i ts (Nat.le_refl i) hts

theorem expect {mark : Symbol} {f : Span → Reading β} (hts : ts.Behind cs i)
    (h : ∀ a b rest, i ≤ a → a < b → rest.Behind cs b → (f (.cut cs a b)).Lands cs rest Q) :
    (Reading.expect mark >>= f).Lands cs ts Q := by
  unfold Reading.expect
  rw [bind_assoc]
  apply isAt
  split
  · rename_i hat
    exact advance hts (Token.eq_symbol hat) rfl fun a b hia hab _ hrest => h a b _ hia hab hrest
  · exact ⟨nofun, fun e hx => by cases hx; exact hts.exact_span⟩

theorem identifier {f : String × Span → Reading β} (hts : ts.Behind cs i)
    (h : ∀ name a b rest, i ≤ a → a < b → rest.Behind cs b →
      (f (name, .cut cs a b)).Lands cs rest Q) : (Reading.identifier >>= f).Lands cs ts Q := by
  unfold Reading.identifier
  rw [bind_assoc]
  apply current
  split
  · rename_i name hc
    rw [bind_assoc]
    exact advance hts hc rfl fun a b hia hab _ hrest => h name a b _ hia hab hrest
  all_goals exact ⟨nofun, fun e hx => by cases hx; exact hts.exact_span⟩

end Lands

/-! ### Repetitions -/

variable {operand : Reading Expr} {op? : Token → Option γ} {join : γ → Expr → Expr → Expr}
  {item : Reading α} {nodes : α → List Node} {close : Symbol} {statement : Reading Stmt}

/-- Joining operands that lie one behind the other gives expressions that lie where the operands
do. -/
theorem lands_leftAssociative (hop : ∀ t op, op? t = some op → t.isFinish = false)
    (hoperand : ∀ i ts, ts.Behind cs i → operand.Lands cs ts fun e j => (Node.expr e).In cs i j)
    (hjoin : ∀ i j k op e e', (Node.expr e).In cs i j → (Node.expr e').In cs j k →
      (Node.expr (join op e e')).In cs i k) (hts : ts.Behind cs i) :
    (leftAssociative operand op? join).Lands cs ts fun e j => (Node.expr e).In cs i j := by
  have hchain (fuel : Nat) : ∀ e j ts, ts.Behind cs j → (Node.expr e).In cs i j →
      (chain operand op? join fuel e).Lands cs ts fun e j => (Node.expr e).In cs i j := by
    induction fuel with
    | zero => exact fun e j ts hts he => .pure hts he
    | succ fuel ih =>
      intro e j ts hts he
      unfold chain
      apply Lands.current
      split
      · exact .pure hts he
      · rename_i op ht
        refine Lands.advance hts rfl (hop _ op ht) fun a b hja hab _ hrest => ?_
        refine (hoperand b _ hrest).bind fun e' k rest hrest he' => ?_
        exact ih _ k rest hrest (hjoin i b k op e e' (he.mono (Nat.le_refl i) (by omega)) he')
  unfold leftAssociative
  refine (hoperand i ts hts).bind fun e j rest hrest he => Lands.current ?_
  split
  · exact Lands.get (hchain _ e j rest hrest he)
  · exact .pure hrest he

/-- Items that lie one behind the other, and the closing symbol behind them. -/
theorem lands_listUntil
    (hitem : ∀ i ts, ts.Behind cs i → item.Lands cs ts fun a j => Row cs i j (nodes a))
    (hts : ts.Behind cs i) : (listUntil close item).Lands cs ts fun r j =>
      ∃ a, r.2 = .cut cs a j ∧ a < j ∧ Row cs i a (r.1.flatMap nodes) := by
  have hitems (fuel : Nat) : ∀ i ts, ts.Behind cs i → (itemsUntil close item fuel).Lands cs ts
      fun xs j => Row cs i j (xs.flatMap nodes) := by
    induction fuel with
    | zero => exact fun i ts hts => .pure hts (.nil (Nat.le_refl i))
    | succ fuel ih =>
      intro i ts hts
      unfold itemsUntil
      apply Lands.isAt
      split
      · exact .pure hts (.nil (Nat.le_refl i))
      · refine (hitem i ts hts).bind fun a j rest hrest ha => ?_
        refine Lands.skip hrest fun more k rest hjk hrest => ?_
        cases more with
        | true =>
          refine (ih k rest hrest).bind fun xs l rest hrest hxs => .pure hrest ?_
          exact (ha.mono (Nat.le_refl i) hjk).append hxs
        | false =>
          refine .pure hrest ?_
          rw [List.flatMap_singleton]
          exact ha.mono (Nat.le_refl i) hjk
  unfold listUntil
  refine Lands.get ((hitems _ i ts hts).bind fun xs j rest hrest hxs => ?_)
  refine Lands.expect hrest fun a b rest hja hab hrest => .pure hrest ⟨a, rfl, hab, ?_⟩
  exact hxs.mono (Nat.le_refl i) hja

theorem lands_block
    (hstatement : ∀ i ts, ts.Behind cs i → statement.Lands cs ts fun s j =>
      (Node.stmt s).In cs i j)
    (hts : ts.Behind cs i) : (block statement).Lands cs ts fun r j =>
      ∃ a, i ≤ a ∧ a < j ∧ r.2 = .cut cs a j ∧ Row cs a j (r.1.map .stmt) := by
  have hstatements (fuel : Nat) : ∀ i ts, ts.Behind cs i →
      (statementsUntilBrace statement fuel).Lands cs ts fun body j =>
        Row cs i j (body.map .stmt) := by
    induction fuel with
    | zero => exact fun i ts hts => .pure hts (.nil (Nat.le_refl i))
    | succ fuel ih =>
      intro i ts hts
      unfold statementsUntilBrace
      apply Lands.current
      split
      · exact .pure hts (.nil (Nat.le_refl i))
      · exact .fail hts
      · refine (hstatement i ts hts).bind fun s j rest hrest hs => ?_
        exact (ih j rest hrest).bind fun body k rest hrest hbody => .pure hrest (.cons hs hbody)
  unfold block
  refine Lands.expect hts fun a b rest hia hab hrest => Lands.get ?_
  refine (hstatements _ b rest hrest).bind fun body j rest hrest hbody => ?_
  refine Lands.expect hrest fun c d rest hjc hcd hrest => .pure hrest ?_
  have hbj := hbody.le
  refine ⟨a, hia, by omega, Span.merge_cut (by omega) (by omega), ?_⟩
  exact hbody.mono (by omega) (by omega)

theorem lands_statementsUntilEnd
    (hstatement : ∀ i ts, ts.Behind cs i → statement.Lands cs ts fun s j =>
      (Node.stmt s).In cs i j)
    (fuel : Nat) : ∀ i ts, ts.Behind cs i → (statementsUntilEnd statement fuel).Lands cs ts
      fun body j => Row cs i j (body.map .stmt) := by
  induction fuel with
  | zero => exact fun i ts hts => .pure hts (.nil (Nat.le_refl i))
  | succ fuel ih =>
    intro i ts hts
    unfold statementsUntilEnd
    apply Lands.current
    split
    · exact .pure hts (.nil (Nat.le_refl i))
    · refine (hstatement i ts hts).bind fun s j rest hrest hs => ?_
      exact (ih j rest hrest).bind fun body k rest hrest hbody => .pure hrest (.cons hs hbody)

end Reading

end ModuleLoader.Script
