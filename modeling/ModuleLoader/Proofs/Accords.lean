import ModuleLoader.Proofs.Cursors
import ModuleLoader.Proofs.Readings

/-! Walks that accord with readings. A walk accords with a reading if from the cursor on it makes of
the tokens what the reading makes of them: it ends with the same, at the token where the reading
leaves off, or at the same fault. Wherever it ends, the cursor has kept within the tokens and what
is counted is as it was. -/
namespace ModuleLoader.Script

variable {α β : Type}

namespace Walk

/-- The walk makes of the tokens from the cursor on what the reading makes of them. -/
structure Accords (w : Walk α) (x : Reading α) (c : Cursor) : Prop where
  ok : ∀ a rest, x.run c.rest = .ok (a, rest) →
    ∃ c', w.outcome c = some (.ok a, c') ∧ c.Leads c' ∧ c'.rest = rest
  fault : ∀ e, x.run c.rest = .error e →
    ∃ c', w.outcome c = some (.error (.fault e), c') ∧ c.Leads c'

/-- The walk accords with the reading wherever this many constructs nest and this many loops
surround the cursor. -/
def Follows (d l : Nat) (w : Walk α) (x : Reading α) : Prop :=
  ∀ c : Cursor, c.Stands d l → w.Accords x c

variable {w : Walk α} {x : Reading α} {f : α → Walk β} {g : α → Reading β} {c c' : Cursor}
  {d l : Nat}

/-! ### Ways to go on -/

/-- Where the mark is known to come, to expect it is to move on. -/
theorem run_expect {mark : Symbol} {ts : Tokens} (h : ts.current = .symbol mark)
    (g : Span → Reading β) :
    (Reading.expect mark >>= g).run ts = (Reading.advance >>= g).run ts := by
  have hat : ts.current.isSymbol mark = true := by
    rw [h]
    exact beq_self_eq_true mark
  show StateT.run ((if ts.current.isSymbol mark then Reading.advance
    else Reading.fail (.expectedToken [.symbol mark])) >>= g) ts = _
  rw [hat]
  rfl

theorem outcome_bind_ok {a : α} (h : w.outcome c = some (.ok a, c')) :
    (w >>= f).outcome c = (f a).outcome c' := by
  unfold outcome at h ⊢
  rw [ExceptT.run_bind, StateT.run_bind, h]
  rfl

theorem outcome_bind_error {s : Stop} (h : w.outcome c = some (.error s, c')) :
    (w >>= f).outcome c = some (.error s, c') := by
  unfold outcome at h ⊢
  rw [ExceptT.run_bind, StateT.run_bind, h]
  rfl

theorem outcome_token (h : c.Within) :
    token.outcome c = some (.ok ⟨c.rest.current, c.rest.span⟩, c) := by
  show (orLost c.tokens[c.position]?).outcome c = _
  rw [h.getElem?_eq]
  rfl

namespace Accords

theorem congr {y : Reading α} (h : w.Accords x c) (hrun : y.run c.rest = x.run c.rest) :
    w.Accords y c where
  ok a rest hy := h.ok a rest (hrun ▸ hy)
  fault e hy := h.fault e (hrun ▸ hy)

theorem of_outcome {v : Walk α} (h : w.Accords x c) (houtcome : v.outcome c = w.outcome c) :
    v.Accords x c where
  ok a rest hx := houtcome ▸ h.ok a rest hx
  fault e hx := houtcome ▸ h.fault e hx

/-- The walk counts something before another one goes on from there, and takes it back behind. -/
theorem around {v : Walk α} {enter : Cursor} (h : w.Accords x enter) (leave : Cursor → Cursor)
    (houtcome : v.outcome c = (w.outcome enter).bind fun r => some (r.1, leave r.2))
    (hrest : enter.rest = c.rest)
    (hleave : ∀ c', enter.Leads c' → c.Leads (leave c') ∧ (leave c').rest = c'.rest) :
    v.Accords x c where
  ok a rest hx := by
    obtain ⟨c', hw, hc', hrest'⟩ := h.ok a rest (hrest ▸ hx)
    obtain ⟨hleads, hsame⟩ := hleave c' hc'
    exact ⟨leave c', by rw [houtcome, hw]; rfl, hleads, hsame.trans hrest'⟩
  fault e hx := by
    obtain ⟨c', hw, hc'⟩ := h.fault e (hrest ▸ hx)
    exact ⟨leave c', by rw [houtcome, hw]; rfl, (hleave c' hc').1⟩

theorem pure (hc : c.Within) (a : α) : Accords (pure a) (pure a) c where
  ok := by
    rintro a rest ⟨⟩
    exact ⟨c, rfl, hc.leads, rfl⟩
  fault := by
    rintro e ⟨⟩

theorem failAt (hc : c.Within) (cause : ParseCause) (span : Span) :
    Accords (Walk.failAt cause span : Walk α) (Reading.failAt cause span) c where
  ok := by
    rintro a rest ⟨⟩
  fault := by
    rintro e ⟨⟩
    exact ⟨c, rfl, hc.leads⟩

/-- What comes after knows what the first reading read and where it left off. -/
theorem bind (h : w.Accords x c)
    (hf : ∀ a c', c.Leads c' → x.run c.rest = .ok (a, c'.rest) → (f a).Accords (g a) c') :
    (w >>= f).Accords (x >>= g) c := by
  cases hx : x.run c.rest with
  | error e =>
    obtain ⟨c', hw, hc'⟩ := h.fault e hx
    refine ⟨fun b rest hb => ?_, fun e' he' => ?_⟩
    · rw [StateT.run_bind, hx] at hb
      cases hb
    · rw [StateT.run_bind, hx] at he'
      cases he'
      exact ⟨c', outcome_bind_error hw, hc'⟩
  | ok r =>
    obtain ⟨a, rest⟩ := r
    obtain ⟨c', hw, hc', rfl⟩ := h.ok a rest hx
    have hnext := hf a c' hc' hx
    have hrun : (x >>= g).run c.rest = (g a).run c'.rest := by
      rw [StateT.run_bind, hx]
      rfl
    refine ⟨fun b rest hb => ?_, fun e he => ?_⟩
    · obtain ⟨c'', hb', hc'', hrest⟩ := hnext.ok b rest (hrun ▸ hb)
      exact ⟨c'', (outcome_bind_ok hw).trans hb', hc'.trans hc'', hrest⟩
    · obtain ⟨c'', he', hc''⟩ := hnext.fault e (hrun ▸ he)
      exact ⟨c'', (outcome_bind_ok hw).trans he', hc'.trans hc''⟩

theorem token {f : Spanned Token → Walk β} {g : Tokens → Reading β} (hc : c.Within)
    (h : (f ⟨c.rest.current, c.rest.span⟩).Accords (g c.rest) c) :
    (Walk.token >>= f).Accords (MonadState.get >>= g) c :=
  (h.of_outcome (outcome_bind_ok (outcome_token hc))).congr rfl

/-- The reading sees how many tokens are left where the walk goes on. -/
theorem get {v : Walk β} {g : Tokens → Reading β} (h : v.Accords (g c.rest) c) :
    v.Accords (MonadState.get >>= g) c :=
  h.congr rfl

/-- The reading looks at its token where the walk does not. -/
theorem seen {v : Walk β} {g : Token → Reading β} (h : v.Accords (g c.rest.current) c) :
    v.Accords (Reading.current >>= g) c :=
  h.congr rfl

/-- The walk looks at its token where the reading does not. -/
theorem look {f : Token → Walk α} (hc : c.Within) (h : (f c.rest.current).Accords x c) :
    (Walk.current >>= f).Accords x c := by
  have hcurrent : Walk.current.outcome c = some (.ok c.rest.current, c) :=
    outcome_bind_ok (outcome_token hc)
  exact h.of_outcome (outcome_bind_ok hcurrent)

theorem current {f : Token → Walk β} {g : Token → Reading β} (hc : c.Within)
    (h : (f c.rest.current).Accords (g c.rest.current) c) :
    (Walk.current >>= f).Accords (Reading.current >>= g) c :=
  look hc (seen h)

theorem lookAt {mark : Symbol} {f : Bool → Walk α} (hc : c.Within)
    (h : (f (c.rest.current.isSymbol mark)).Accords x c) : (Walk.isAt mark >>= f).Accords x c := by
  unfold Walk.isAt
  rw [bind_assoc]
  refine look hc ?_
  rw [pure_bind]
  exact h

theorem inLoop {f : Bool → Walk α} (hc : c.Stands d l) (h : (f (0 < l)).Accords x c) :
    (Walk.inLoop >>= f).Accords x c := by
  have hinLoop : Walk.inLoop.outcome c = some (.ok (decide (0 < l)), c) := by
    rw [← hc.loops]
    rfl
  exact h.of_outcome (outcome_bind_ok hinLoop)

theorem here {f : Span → Walk β} {g : Span → Reading β} (hc : c.Within)
    (h : (f c.rest.span).Accords (g c.rest.span) c) :
    (Walk.here >>= f).Accords (Reading.here >>= g) c := by
  have hhere : Walk.here.outcome c = some (.ok c.rest.span, c) :=
    outcome_bind_ok (outcome_token hc)
  exact (h.of_outcome (outcome_bind_ok hhere)).congr rfl

theorem fail_bind {f : β → Walk α} (hc : c.Within) (cause : Token → ParseCause) :
    ((Walk.fail cause : Walk β) >>= f).Accords (Reading.fail cause) c := by
  have hfail : (Walk.fail cause : Walk β).Accords (Reading.fail cause) c :=
    token hc (failAt hc _ _)
  have hbind : ((Walk.fail cause : Walk β) >>= f).Accords
      ((Reading.fail cause : Reading β) >>= fun _ => Reading.fail cause) c :=
    hfail.bind fun _ _ _ hrun => by cases hrun
  exact hbind.congr rfl

theorem expectWord_bind {word : Keyword} {f : Span → Walk α} (hc : c.Within)
    (hword : c.rest.current.isKeyword word = false) :
    (Walk.expectWord word >>= f).Accords (Reading.fail (.expectedToken [.keyword word])) c := by
  unfold Walk.expectWord
  rw [bind_assoc]
  refine look hc ?_
  rw [hword]
  exact fail_bind hc _

/-- The closing token is not moved over; over any other one the cursor moves on. -/
theorem advance (hc : c.Within) : Walk.advance.Accords Reading.advance c := by
  have hrun : Reading.advance.run c.rest = .ok (c.rest.span, c.rest.advance) := rfl
  have houtcome : Walk.advance.outcome c = outcome (if c.rest.current.isFinish = true
      then Pure.pure c.rest.span
      else do
        modify fun c => { c with position := c.position + 1 }
        return c.rest.span) c :=
    outcome_bind_ok (outcome_token hc)
  have hadvance := congrArg Tokens.advance hc.rest_eq
  refine ⟨fun a rest hx => ?_, fun e hx => by rw [hrun] at hx; cases hx⟩
  rw [hrun] at hx
  cases hx
  rw [houtcome]
  rw [Tokens.advance] at hadvance
  split
  · rename_i hfinish
    rw [if_pos hfinish, ← hc.rest_eq] at hadvance
    exact ⟨c, rfl, hc.leads, hadvance.symm⟩
  · rename_i hfinish
    rw [if_neg hfinish] at hadvance
    have hlt := hc.next (Bool.eq_false_iff.mpr hfinish)
    exact ⟨_, rfl, ⟨rfl, rfl, rfl, Nat.le_succ _, hlt⟩, hadvance.symm⟩

/-- Over a token that does not close the others the cursor gets nearer to the end. -/
theorem advance_bind {f : Span → Walk β} {g : Span → Reading β} (hc : c.Within)
    (hfinish : c.rest.current.isFinish = false)
    (h : ∀ s c', c.Leads c' → c'.rest.length < c.rest.length → (f s).Accords (g s) c') :
    (Walk.advance >>= f).Accords (Reading.advance >>= g) c := by
  refine (advance hc).bind fun s c' hc' hrun => h s c' hc' ?_
  have hrest : c.rest.advance = c'.rest := (Prod.mk.inj (Except.ok.inj hrun)).2
  have hlength := congrArg List.length (Tokens.eq_cons rfl hfinish)
  rw [List.length_cons, hrest] at hlength
  omega

theorem skip_bind {mark : Symbol} {f : Bool → Walk β} {g : Bool → Reading β} (hc : c.Within)
    (h : ∀ c', c.Leads c' → c'.rest.length < c.rest.length → (f true).Accords (g true) c')
    (h' : (f false).Accords (g false) c) :
    (Walk.skip mark >>= f).Accords (Reading.skip mark >>= g) c := by
  unfold Walk.skip Reading.skip Walk.isAt Reading.isAt
  simp only [bind_assoc, pure_bind]
  refine current hc ?_
  cases hat : c.rest.current.isSymbol mark with
  | false => exact h'
  | true =>
    have hfinish : c.rest.current.isFinish = false := by
      rw [Token.eq_symbol hat]
      rfl
    simp only [if_true, bind_assoc, pure_bind]
    exact advance_bind hc hfinish fun _ c' hc' hlt => h c' hc' hlt

/-- Where the word is known to come, to expect it is to move on. -/
theorem expectWord {word : Keyword} {f : Span → Walk β} {g : Span → Reading β} (hc : c.Within)
    (hword : c.rest.current = .keyword word) (h : ∀ s c', c.Leads c' → (f s).Accords (g s) c') :
    (Walk.expectWord word >>= f).Accords (Reading.advance >>= g) c := by
  unfold Walk.expectWord
  rw [bind_assoc]
  refine look hc ?_
  have hat : c.rest.current.isKeyword word = true := by
    rw [hword]
    exact beq_self_eq_true word
  rw [if_pos hat]
  exact (advance hc).bind fun s c' hc' _ => h s c' hc'

theorem identifier {name : String} {f : String × Span → Walk β} {g : Reading β} (hc : c.Within)
    (hname : c.rest.current = .identifier name)
    (h : ∀ s c', c.Leads c' → (f (name, s)).Accords g c') :
    (Walk.identifier >>= f).Accords (Reading.advance >>= fun _ => g) c := by
  unfold Walk.identifier
  rw [bind_assoc]
  refine look hc ?_
  rw [hname]
  show ((Walk.advance >>= fun s => Pure.pure (name, s)) >>= f).Accords _ c
  rw [bind_assoc]
  refine (advance hc).bind fun s c' hc' _ => ?_
  rw [pure_bind]
  exact h s c' hc'

end Accords

namespace Follows

theorem pure (a : α) : Follows d l (pure a) (pure a) :=
  fun _ hc => .pure hc.toWithin a

theorem failAt (cause : ParseCause) (span : Span) :
    Follows d l (Walk.failAt cause span : Walk α) (Reading.failAt cause span) :=
  fun _ hc => .failAt hc.toWithin cause span

theorem fail (cause : Token → ParseCause) :
    Follows d l (Walk.fail cause : Walk α) (Reading.fail cause) :=
  fun _ hc => .token hc.toWithin (.failAt hc.toWithin _ _)

theorem bind (h : Follows d l w x) (hf : ∀ a, Follows d l (f a) (g a)) :
    Follows d l (w >>= f) (x >>= g) :=
  fun c hc => (h c hc).bind fun a c' hc' _ => hf a c' (hc'.stands hc)

theorem map {f : α → β} (h : Follows d l w x) : Follows d l (f <$> w) (f <$> x) := by
  rw [map_eq_pure_bind, map_eq_pure_bind]
  exact h.bind fun a => .pure (f a)

theorem ite {v : Walk α} {y : Reading α} {p : Prop} [Decidable p] (h : Follows d l w x)
    (h' : Follows d l v y) : Follows d l (if p then w else v) (if p then x else y) := by
  split
  · exact h
  · exact h'

theorem current : Follows d l Walk.current Reading.current :=
  fun _ hc => .token hc.toWithin (.pure hc.toWithin _)

theorem here : Follows d l Walk.here Reading.here :=
  fun _ hc => .token hc.toWithin (.pure hc.toWithin _)

theorem advance : Follows d l Walk.advance Reading.advance :=
  fun _ hc => .advance hc.toWithin

theorem isAt (mark : Symbol) : Follows d l (Walk.isAt mark) (Reading.isAt mark) :=
  current.bind fun _ => .pure _

theorem skip (mark : Symbol) : Follows d l (Walk.skip mark) (Reading.skip mark) :=
  (isAt mark).bind fun _ => .ite (advance.bind fun _ => .pure true) (.pure false)

theorem skipWord (word : Keyword) : Follows d l (Walk.skipWord word) (Reading.skipWord word) :=
  current.bind fun _ => .ite (advance.bind fun _ => .pure true) (.pure false)

theorem expect (mark : Symbol) : Follows d l (Walk.expect mark) (Reading.expect mark) :=
  (isAt mark).bind fun _ => .ite advance (.fail _)

theorem identifier : Follows d l Walk.identifier Reading.identifier := by
  refine current.bind fun t => ?_
  cases t with
  | identifier name => exact advance.bind fun _ => .pure _
  | keyword word => cases word <;> exact .fail _
  | _ => exact .fail _

end Follows

end Walk

end ModuleLoader.Script
