import ModuleLoader.Proofs.Parallels

/-! A nesting limit only rejects: under a higher one, every script and every other fault is the
same. The two readings run side by side on the same tokens, and whatever the first refuses for
another reason than its limit the second refuses too. -/
namespace ModuleLoader.Script

namespace Program

/-- Why a text is no script under this nesting limit, or the script that it is. -/
def ofSourceWithin (limit : Nat) (source : String) : Except SyntaxFault Program :=
  match tokenize source with
  | .error errors => .error (.lexical errors)
  | .ok ts =>
    match ofTokens limit ts with
    | .error e => .error (.parse e)
    | .ok p => .ok p

theorem ofSourceWithin_maxNesting : ofSourceWithin maxNesting = ofSource := rfl

theorem ofTokens_eq_of_le {m n : Nat} (hmn : m ≤ n) {ts : Tokens}
    (h : ∀ e, ofTokens m ts = .error e → e.value.kind ≠ .limitExceeded) :
    ofTokens n ts = ofTokens m ts := by
  let C := Coupling.alike id (fun e => e.value.kind = .limitExceeded) fun hs ht => congrArg₂ _ hs ht
  have hn : (nestedAt m m).Echoes C (nestedAt n n) := echoes_nestedAt_of_le (fun _ he => he) m n hmn
  have hts : C.inside ts ts := rfl
  obtain ⟨hok, herror⟩ := ofTokens_echoes (fun h => h) hn hts
  cases hm : ofTokens m ts with
  | ok p =>
    obtain ⟨q, hq, hpq⟩ := hok p hm
    have hpq : p.mapSpan id = q.mapSpan id := hpq
    rw [mapSpan_id, mapSpan_id] at hpq
    rw [hq, hpq]
  | error e =>
    obtain ⟨⟨cause, span⟩, he, hvalue, hplace⟩ := herror e hm (h e hm)
    cases hvalue
    cases hplace
    exact he

/-- Raising the limit changes nothing but what exceeded it: a source that is refused under the lower
limit for another reason, or read as a script, is refused for that reason at that place, or read as
that script, under the higher one. -/
theorem ofSourceWithin_eq_of_le {m n : Nat} (hmn : m ≤ n) {source : String}
    (h : ∀ e : ParseFault, ofSourceWithin m source = .error (.parse e) →
      e.value.kind ≠ .limitExceeded) : ofSourceWithin n source = ofSourceWithin m source := by
  unfold ofSourceWithin at h ⊢
  cases ht : tokenize source with
  | error errors => rfl
  | ok ts =>
    rw [ht] at h
    dsimp only at h ⊢
    rw [ofTokens_eq_of_le hmn]
    intro e he
    rw [he] at h
    exact h e rfl

/-- Parentheses that nest as deep as the lower limit allows. -/
theorem ofSourceWithin_eq_of_le_sample : 3 ≤ maxNesting ∧ ∃ p, ofSourceWithin 3 "(a);" = .ok p ∧
    p.size = 1 ∧ ofSource "(a);" = .ok p := by
  have haccepted : (match ofSourceWithin 3 "(a);" with
      | .ok p => p.size == 1
      | .error _ => false) = true := by
    decide +kernel
  split at haccepted
  · rename_i p hp
    have hle : 3 ≤ maxNesting := by decide
    have heq : ofSourceWithin maxNesting "(a);" = ofSourceWithin 3 "(a);" := by
      refine ofSourceWithin_eq_of_le hle fun e he => ?_
      rw [hp] at he
      cases he
    rw [ofSourceWithin_maxNesting] at heq
    exact ⟨hle, p, hp, eq_of_beq haccepted, heq.trans hp⟩
  · contradiction

end Program

end ModuleLoader.Script
