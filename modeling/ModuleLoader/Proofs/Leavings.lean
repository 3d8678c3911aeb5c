import ModuleLoader.Proofs.Readings
import ModuleLoader.Script.Tree.Program

/-! Laws of readings, told by what they read and by the tokens that they leave. Which tokens come
first and which come next is known, so that facts about them can be used. -/
namespace ModuleLoader.Script

variable {α β γ : Type}

/-- If the reading ends, this holds of what it read and of the tokens that are left. -/
def Reading.Leaves (x : Reading α) (ts : Tokens) (Q : α → Tokens → Prop) : Prop :=
  ∀ a rest, x.run ts = .ok (a, rest) → Q a rest

namespace Reading

variable {x : Reading α} {f : α → Reading β} {ts : Tokens} {P : α → Tokens → Prop}
  {Q : β → Tokens → Prop}

namespace Leaves

theorem imp {P' : α → Tokens → Prop} (h : x.Leaves ts P) (hP : ∀ a rest, P a rest → P' a rest) :
    x.Leaves ts P' :=
  fun a rest hx => hP a rest (h a rest hx)

theorem pure {a : α} (h : P a ts) : (Pure.pure a : Reading α).Leaves ts P := by
  intro a' rest hx
  cases hx
  exact h

theorem fail {cause : Token → ParseCause} : (Reading.fail cause : Reading α).Leaves ts P := by
  intro a rest hx
  cases hx

theorem failAt {cause : ParseCause} {span : Span} :
    (Reading.failAt cause span : Reading α).Leaves ts P := by
  intro a rest hx
  cases hx

theorem bind (h : x.Leaves ts P) (hf : ∀ a rest, P a rest → (f a).Leaves rest Q) :
    (x >>= f).Leaves ts Q := by
  intro b rest hx
  rw [StateT.run_bind] at hx
  cases hrun : x.run ts with
  | error e => rw [hrun] at hx; cases hx
  | ok r =>
    rw [hrun] at hx
    exact hf r.1 r.2 (h r.1 r.2 hrun) b rest hx

theorem map {g : α → β} (h : x.Leaves ts fun a rest => Q (g a) rest) : (g <$> x).Leaves ts Q := by
  rw [map_eq_pure_bind]
  exact h.bind fun a rest ha => .pure ha

theorem current {f : Token → Reading β} (h : (f ts.current).Leaves ts Q) :
    (Reading.current >>= f).Leaves ts Q := h

theorem here {f : Span → Reading β} (h : (f ts.span).Leaves ts Q) :
    (Reading.here >>= f).Leaves ts Q := h

theorem get {f : Tokens → Reading β} (h : (f ts).Leaves ts Q) :
    ((MonadState.get : Reading Tokens) >>= f).Leaves ts Q := h

theorem isAt {mark : Symbol} {f : Bool → Reading β}
    (h : (f (ts.current.isSymbol mark)).Leaves ts Q) : (Reading.isAt mark >>= f).Leaves ts Q := h

theorem advance {f : Span → Reading β} (h : (f ts.span).Leaves ts.advance Q) :
    (Reading.advance >>= f).Leaves ts Q := h

theorem skip {mark : Symbol} {f : Bool → Reading β} (h : (f true).Leaves ts.advance Q)
    (h' : (f false).Leaves ts Q) : (Reading.skip mark >>= f).Leaves ts Q := by
  unfold Reading.skip
  rw [bind_assoc]
  apply isAt
  split
  · exact h
  · exact h'

theorem skipWord {word : Keyword} {f : Bool → Reading β}
    (h : ts.current = .keyword word → (f true).Leaves ts.advance Q)
    (h' : ts.current ≠ .keyword word → (f false).Leaves ts Q) :
    (Reading.skipWord word >>= f).Leaves ts Q := by
  unfold Reading.skipWord
  rw [bind_assoc]
  apply current
  split
  · rename_i hat
    exact h (Token.eq_keyword hat)
  · rename_i hat
    refine h' fun hc => hat ?_
    rw [hc]
    exact beq_self_eq_true word

theorem expect {mark : Symbol} {f : Span → Reading β}
    (h : (f ts.span).Leaves ts.advance Q) : (Reading.expect mark >>= f).Leaves ts Q := by
  unfold Reading.expect
  rw [bind_assoc]
  apply isAt
  split
  · exact h
  · exact fun b rest hx => by cases hx

theorem identifier {f : String × Span → Reading β}
    (h : ∀ name, (f (name, ts.span)).Leaves ts.advance Q) :
    (Reading.identifier >>= f).Leaves ts Q := by
  unfold Reading.identifier
  rw [bind_assoc]
  apply current
  split
  · exact h _
  all_goals exact fun b rest hx => by cases hx

end Leaves

section Repetitions

variable {operand item : Reading α} {op? : Token → Option γ} {join : γ → α → α → α}
  {close : Symbol} {statement : Reading Stmt} {L R : α → Prop}

/-- What holds of the first operand and is kept by joining holds of the chain. -/
theorem leaves_leftAssociative (h : operand.Leaves ts fun a _ => L a)
    (hoperand : ∀ ts, operand.Leaves ts fun a _ => R a)
    (hjoin : ∀ t op a b, op? t = some op → L a → R b → L (join op a b)) :
    (leftAssociative operand op? join).Leaves ts fun a _ => L a := by
  have hchain (fuel : Nat) : ∀ a ts, L a →
      (chain operand op? join fuel a).Leaves ts fun b _ => L b := by
    induction fuel with
    | zero => exact fun a ts ha => .pure ha
    | succ fuel ih =>
      intro a ts ha
      unfold chain
      apply Leaves.current
      split
      · exact .pure ha
      · rename_i op hop
        refine Leaves.advance ((hoperand _).bind fun b rest hb => ?_)
        exact ih _ rest (hjoin _ op a b hop ha hb)
  unfold leftAssociative
  refine h.bind fun a rest ha => Leaves.current ?_
  split
  · exact Leaves.get (hchain _ a rest ha)
  · exact .pure ha

theorem leaves_listUntil (h : ∀ ts, item.Leaves ts fun a _ => R a) (ts : Tokens) :
    (listUntil close item).Leaves ts fun r _ => ∀ a ∈ r.1, R a := by
  have hitems (fuel : Nat) : ∀ ts, (itemsUntil close item fuel).Leaves ts fun xs _ =>
      ∀ a ∈ xs, R a := by
    induction fuel with
    | zero => exact fun ts => .pure nofun
    | succ fuel ih =>
      intro ts
      unfold itemsUntil
      apply Leaves.isAt
      split
      · exact .pure nofun
      · refine (h ts).bind fun a rest ha => Leaves.skip ?_ ?_
        · refine (ih _).bind fun xs rest hxs => ?_
          exact .pure (List.forall_mem_cons.mpr ⟨ha, hxs⟩)
        · exact .pure (List.forall_mem_singleton.mpr ha)
  unfold listUntil
  exact Leaves.get ((hitems _ _).bind fun xs rest hxs => Leaves.expect (.pure hxs))

theorem leaves_block {R : Stmt → Prop} (h : ∀ ts, statement.Leaves ts fun s _ => R s)
    (ts : Tokens) : (block statement).Leaves ts fun b _ => ∀ s ∈ b.1, R s := by
  have hstatements (fuel : Nat) : ∀ ts, (statementsUntilBrace statement fuel).Leaves ts
      fun body _ => ∀ s ∈ body, R s := by
    induction fuel with
    | zero => exact fun ts => .pure nofun
    | succ fuel ih =>
      intro ts
      unfold statementsUntilBrace
      apply Leaves.current
      split
      · exact .pure nofun
      · exact .fail
      · refine (h ts).bind fun s rest hs => (ih rest).bind fun body rest hbody => ?_
        exact .pure (List.forall_mem_cons.mpr ⟨hs, hbody⟩)
  unfold block
  exact Leaves.expect (Leaves.get ((hstatements _ _).bind fun body rest hbody =>
    Leaves.expect (.pure hbody)))

theorem leaves_statementsUntilEnd {R : Stmt → Prop} (h : ∀ ts, statement.Leaves ts fun s _ => R s)
    (fuel : Nat) : ∀ ts, (statementsUntilEnd statement fuel).Leaves ts
      fun body _ => ∀ s ∈ body, R s := by
  induction fuel with
  | zero => exact fun ts => .pure nofun
  | succ fuel ih =>
    intro ts
    unfold statementsUntilEnd
    apply Leaves.current
    split
    · exact .pure nofun
    · refine (h ts).bind fun s rest hs => (ih rest).bind fun body rest hbody => ?_
      exact .pure (List.forall_mem_cons.mpr ⟨hs, hbody⟩)

end Repetitions

end Reading

end ModuleLoader.Script
