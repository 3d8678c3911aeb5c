import ModuleLoader.Script.Tree.Reading

/-! Laws of readings: what a composed reading makes of the tokens that it takes, told by what its
parts make of theirs. -/
namespace ModuleLoader.Script

variable {α β : Type}

/-- If the reading ends, it has taken tokens off the front, never the closing one, and what it
read is this of them. -/
def Reading.Yields (x : Reading α) (ts : Tokens) (Q : Tokens → α → Prop) : Prop :=
  ∀ a rest, x.run ts = .ok (a, rest) →
    ∃ used, ts = used ++ rest ∧ (∀ t ∈ used, t.value.isFinish = false) ∧ Q used a

/-- On any tokens, what the reading reads is this of the tokens that it takes. -/
def Reading.Reads (x : Reading α) (Q : Tokens → α → Prop) : Prop :=
  ∀ ts, x.Yields ts Q

theorem Tokens.eq_cons {ts : Tokens} {t : Token} (hc : ts.current = t) (ht : t.isFinish = false) :
    ts = ⟨t, ts.span⟩ :: ts.advance := by
  subst hc
  cases ts with
  | nil => cases ht
  | cons t rest => simp_all [Tokens.current, Tokens.span, Tokens.advance]

theorem Token.eq_symbol {t : Token} {mark : Symbol} (h : t.isSymbol mark) : t = .symbol mark := by
  unfold Token.isSymbol at h
  split at h
  · rw [eq_of_beq h]
  · contradiction

theorem Token.eq_keyword {t : Token} {word : Keyword} (h : t.isKeyword word) :
    t = .keyword word := by
  unfold Token.isKeyword at h
  split at h
  · rw [eq_of_beq h]
  · contradiction

/-- A token that stands for something is not the closing one if that stands for nothing. -/
theorem Token.isFinish_of_eq_some {α : Type} {f : Token → Option α} (hf : f .finish = none)
    {t : Token} {a : α} (h : f t = some a) : t.isFinish = false := by
  cases t with
  | finish =>
    rw [hf] at h
    contradiction
  | _ => rfl

namespace Reading

variable {x : Reading α} {f : α → Reading β} {ts : Tokens} {P : Tokens → α → Prop}
  {Q : Tokens → β → Prop}

namespace Yields

theorem imp (h : x.Yields ts P) {P' : Tokens → α → Prop} (hP : ∀ us a, P us a → P' us a) :
    x.Yields ts P' := by
  intro a rest hx
  obtain ⟨us, hts, hus, ha⟩ := h a rest hx
  exact ⟨us, hts, hus, hP us a ha⟩

theorem pure {a : α} (h : P [] a) : (Pure.pure a : Reading α).Yields ts P := by
  intro a' rest hx
  cases hx
  exact ⟨[], rfl, by simp, h⟩

theorem failAt {cause : ParseCause} {span : Span} :
    (Reading.failAt cause span : Reading α).Yields ts P := by
  intro a rest hx
  cases hx

theorem fail {cause : Token → ParseCause} : (Reading.fail cause : Reading α).Yields ts P := by
  intro a rest hx
  cases hx

/-- The second part may know how the first one split the tokens. -/
theorem bind_split (h : x.Yields ts P)
    (hf : ∀ used a rest, ts = used ++ rest → (∀ t ∈ used, t.value.isFinish = false) → P used a →
      (f a).Yields rest fun us b => Q (used ++ us) b) : (x >>= f).Yields ts Q := by
  intro b rest hx
  rw [StateT.run_bind] at hx
  cases hrun : x.run ts with
  | error e => rw [hrun] at hx; cases hx
  | ok r =>
    rw [hrun] at hx
    obtain ⟨used, hts, hused, ha⟩ := h r.1 r.2 hrun
    obtain ⟨us, hrest, hus, hb⟩ := hf used r.1 r.2 hts hused ha b rest hx
    refine ⟨used ++ us, by rw [hts, hrest, List.append_assoc], ?_, hb⟩
    intro t ht
    exact (List.mem_append.mp ht).elim (hused t) (hus t)

theorem bind (h : x.Yields ts P)
    (hf : ∀ used a rest, P used a → (f a).Yields rest fun us b => Q (used ++ us) b) :
    (x >>= f).Yields ts Q :=
  bind_split h fun used a rest _ _ ha => hf used a rest ha

theorem current {f : Token → Reading β} (h : (f ts.current).Yields ts Q) :
    (Reading.current >>= f).Yields ts Q := h

theorem here {f : Span → Reading β} (h : (f ts.span).Yields ts Q) :
    (Reading.here >>= f).Yields ts Q := h

theorem get {f : Tokens → Reading β} (h : (f ts).Yields ts Q) :
    ((MonadState.get : Reading Tokens) >>= f).Yields ts Q := h

theorem isAt {mark : Symbol} {f : Bool → Reading β}
    (h : (f (ts.current.isSymbol mark)).Yields ts Q) : (Reading.isAt mark >>= f).Yields ts Q := h

/-- The token to come is one that is known, and not the closing one. -/
theorem advance {f : Span → Reading β} {t : Token} (hc : ts.current = t) (ht : t.isFinish = false)
    (h : (f ts.span).Yields ts.advance fun us b => Q (⟨t, ts.span⟩ :: us) b) :
    (Reading.advance >>= f).Yields ts Q := by
  intro b rest hx
  obtain ⟨us, hrest, hus, hb⟩ := h b rest hx
  refine ⟨⟨t, ts.span⟩ :: us, ?_, ?_, hb⟩
  · rw [Tokens.eq_cons hc ht, hrest]; rfl
  · simpa [ht] using hus

theorem skip {mark : Symbol} {f : Bool → Reading β}
    (h : ∀ s rest, (f true).Yields rest fun us b => Q (⟨.symbol mark, s⟩ :: us) b)
    (h' : (f false).Yields ts Q) : (Reading.skip mark >>= f).Yields ts Q := by
  unfold Reading.skip
  rw [bind_assoc]
  apply isAt
  split
  · rename_i hat
    rw [bind_assoc]
    apply advance (Token.eq_symbol hat) rfl
    exact h _ _
  · exact h'

theorem skipWord {word : Keyword} {f : Bool → Reading β}
    (h : ∀ s rest, (f true).Yields rest fun us b => Q (⟨.keyword word, s⟩ :: us) b)
    (h' : (f false).Yields ts Q) : (Reading.skipWord word >>= f).Yields ts Q := by
  unfold Reading.skipWord
  rw [bind_assoc]
  apply current
  split
  · rename_i hat
    rw [bind_assoc]
    apply advance (Token.eq_keyword hat) rfl
    exact h _ _
  · exact h'

theorem expect {mark : Symbol} {f : Span → Reading β}
    (h : ∀ s rest, (f s).Yields rest fun us b => Q (⟨.symbol mark, s⟩ :: us) b) :
    (Reading.expect mark >>= f).Yields ts Q := by
  unfold Reading.expect
  rw [bind_assoc]
  apply isAt
  split
  · rename_i hat
    exact advance (Token.eq_symbol hat) rfl (h _ _)
  · intro b rest hx
    cases hx

theorem identifier {f : String × Span → Reading β}
    (h : ∀ name s rest, (f (name, s)).Yields rest fun us b => Q (⟨.identifier name, s⟩ :: us) b) :
    (Reading.identifier >>= f).Yields ts Q := by
  unfold Reading.identifier
  rw [bind_assoc]
  apply current
  split
  · rename_i name hc
    rw [bind_assoc]
    apply advance hc rfl
    exact h _ _ _
  all_goals
    intro b rest hx
    cases hx

end Yields

section Chains

variable {γ : Type} {operand : Reading α} {op? : Token → Option γ} {join : γ → α → α → α}
  {spelling : γ → Symbol} {fits : γ → Prop} {L : Tokens → α → Prop}

theorem Yields.chain (hop : ∀ t op, op? t = some op → t = .symbol (spelling op) ∧ fits op)
    (hoperand : operand.Reads P)
    (hjoin : ∀ op s us vs a b, fits op → L us a → P vs b →
      L (us ++ ⟨.symbol (spelling op), s⟩ :: vs) (join op a b)) (fuel : Nat) :
    ∀ us a ts, L us a →
      (Reading.chain operand op? join fuel a).Yields ts fun vs b => L (us ++ vs) b := by
  induction fuel with
  | zero =>
    intro us a ts ha
    exact .pure (by simpa using ha)
  | succ fuel ih =>
    intro us a ts ha
    unfold Reading.chain
    apply Yields.current
    split
    · exact .pure (by simpa using ha)
    · rename_i op ht
      obtain ⟨hmark, hfits⟩ := hop _ _ ht
      apply Yields.advance hmark rfl
      apply Yields.bind (hoperand _)
      intro vs b rest hb
      apply (ih _ _ rest (hjoin op ts.span us vs a b hfits ha hb)).imp
      intro ws c hc
      simpa using hc

theorem Reads.leftAssociative
    (hop : ∀ t op, op? t = some op → t = .symbol (spelling op) ∧ fits op)
    (hoperand : operand.Reads P) (hfirst : ∀ us a, P us a → L us a)
    (hjoin : ∀ op s us vs a b, fits op → L us a → P vs b →
      L (us ++ ⟨.symbol (spelling op), s⟩ :: vs) (join op a b)) :
    (Reading.leftAssociative operand op? join).Reads L := by
  intro ts
  unfold Reading.leftAssociative
  apply Yields.bind (hoperand ts)
  intro us a rest ha
  apply Yields.current
  split
  · apply Yields.get
    exact Yields.chain hop hoperand hjoin _ us a rest (hfirst us a ha)
  · exact .pure (by simpa using hfirst us a ha)

end Chains
end Reading

end ModuleLoader.Script
