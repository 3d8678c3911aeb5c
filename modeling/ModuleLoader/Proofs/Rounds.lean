import ModuleLoader.Proofs.Accords
import ModuleLoader.Proofs.Leavings
import ModuleLoader.Proofs.Rules

/-! The loops of the rules. Each turn of a loop gets the cursor nearer to the closing token, so that
there are no more turns than tokens, and a loop that nothing bounds accords with one that has a turn
for every token that is left. -/
namespace ModuleLoader.Script

open Walk

namespace Rule

variable {β : Type} {d k : Nat}

/-- Operands are joined turn by turn; each turn moves over an operator. -/
theorem accords_chain {l : Level} {x : Reading Expr} {op? : Token → Option β}
    {join : β → Expr → Expr → Expr} (hjoin : ∀ t, l.join? t = (op? t).map join)
    (hfinish : op? .finish = none) (hoperand : Follows d k (level l.tighter).walk x) (fuel : Nat) :
    ∀ (before : Expr) {c : Cursor}, c.Stands d k → c.rest.length ≤ fuel →
      (chain l before).walk.Accords (Reading.chain x op? join fuel before) c := by
  induction fuel with
  | zero => exact fun _ _ hc hfuel => absurd hfuel hc.not_spent
  | succ fuel ih =>
    intro before c hc hfuel
    rw [Rule.walk, Reading.chain]
    refine .current hc.toWithin ?_
    rw [hjoin]
    cases hop : op? c.rest.current with
    | none => exact .pure hc.toWithin before
    | some op =>
      refine .advance_bind hc.toWithin (Token.isFinish_of_eq_some hfinish hop) ?_
      intro _ c' hc' hlt
      refine (hoperand c' (hc'.stands hc)).bind fun right c'' hc'' _ => ?_
      have hle := hc''.length_le
      exact ih _ (hc''.stands (hc'.stands hc)) (by omega)

theorem follows_leftAssociative {l : Level} {x : Reading Expr} {op? : Token → Option β}
    {join : β → Expr → Expr → Expr} (hjoin : ∀ t, l.join? t = (op? t).map join)
    (hfinish : op? .finish = none) (hoperand : Follows d k (level l.tighter).walk x) :
    Follows d k ((level l.tighter).walk >>= fun first => (chain l first).walk)
      (Reading.leftAssociative x op? join) := by
  unfold Reading.leftAssociative
  refine hoperand.bind fun first c hc => ?_
  cases hop : op? c.rest.current with
  | none =>
    rw [Rule.walk]
    refine .current hc.toWithin ?_
    rw [hjoin, hop]
    exact .pure hc.toWithin first
  | some op =>
    refine .seen ?_
    rw [hop, Option.isSome_some, if_pos rfl]
    exact .get (accords_chain hjoin hfinish hoperand c.rest.length first hc (Nat.le_refl _))

/-- Each turn but the last one moves over a comma. -/
theorem accords_items {i : Item} {x : Reading i.Tree} (hitem : Follows d k (item i).walk x)
    (close : Symbol) (fuel : Nat) : ∀ (before : List i.Tree) {c : Cursor}, c.Stands d k →
      c.rest.length ≤ fuel → (items i close before).walk.Accords
        ((before ++ ·) <$> Reading.itemsUntil close x fuel) c := by
  induction fuel with
  | zero => exact fun _ _ hc hfuel => absurd hfuel hc.not_spent
  | succ fuel ih =>
    intro before c hc hfuel
    rw [Rule.walk, Reading.itemsUntil, map_bind]
    refine (Follows.isAt close c hc).bind fun isClosed c' hc' _ => ?_
    cases isClosed with
    | true =>
      rw [if_pos rfl, if_pos rfl, map_pure, List.append_nil]
      exact .pure (hc'.within hc.toWithin) before
    | false =>
      rw [if_neg Bool.false_ne_true, if_neg Bool.false_ne_true, map_bind]
      have hle := hc'.length_le
      refine (hitem c' (hc'.stands hc)).bind fun y c'' hc'' _ => ?_
      have hle' := hc''.length_le
      have hstands := hc''.stands (hc'.stands hc)
      rw [map_bind]
      refine .skip_bind hstands.toWithin (fun c₃ hc₃ hlt => ?_) ?_
      · rw [if_pos rfl, if_pos rfl]
        refine (ih (before ++ [y]) (hc₃.stands hstands) (by omega)).congr ?_
        simp only [bind_pure_comp, Functor.map_map, List.append_assoc, List.singleton_append]
      · exact .pure hstands.toWithin (before ++ [y])

/-- A list up to its closing symbol, and what comes behind. -/
theorem accords_list {i : Item} {close : Symbol} {x : Reading i.Tree} {c : Cursor}
    (hitem : Follows d k (item i).walk x) (hc : c.Stands d k) {f : List i.Tree → Span → Walk β}
    {g : List i.Tree × Span → Reading β}
    (h : ∀ xs s c', c.Leads c' → (f xs s).Accords (g (xs, s)) c') :
    ((items i close []).walk >>= fun xs => Walk.expect close >>= f xs).Accords
      (Reading.listUntil close x >>= g) c := by
  have hitems : (items i close []).walk.Accords (Reading.itemsUntil close x c.rest.length) c := by
    simpa using accords_items hitem close c.rest.length [] hc (Nat.le_refl _)
  unfold Reading.listUntil
  simp only [bind_assoc, pure_bind]
  refine .get (hitems.bind fun xs c' hc' _ => ?_)
  refine (Follows.expect close c' (hc'.stands hc)).bind fun s c'' hc'' _ => ?_
  exact h xs s c'' (hc'.trans hc'')

theorem follows_memberName : Follows d k Walk.memberName memberName := by
  refine Follows.current.bind fun t => ?_
  cases t.asName? with
  | some name => exact Follows.advance.bind fun _ => .pure _
  | none => exact .fail _

/-- A walk through the arguments of a call is one through an expression. -/
theorem follows_argument {n : Nested} (h : Follows d k (nested .expression).walk n.expression) :
    Follows d k (item .argument).walk n.expression := by
  rw [Rule.walk]
  exact h

/-- Each turn moves over the mark that opens a suffix. -/
theorem accords_suffixes {n : Nested} (h : Follows d k (nested .expression).walk n.expression)
    (fuel : Nat) : ∀ (before : Expr) {c : Cursor}, c.Stands d k → c.rest.length ≤ fuel →
      (suffixes before).walk.Accords (Script.suffixes n fuel before) c := by
  induction fuel with
  | zero => exact fun _ _ hc hfuel => absurd hfuel hc.not_spent
  | succ fuel ih =>
    intro before c hc hfuel
    rw [Rule.walk, Script.suffixes]
    refine .current hc.toWithin ?_
    cases ht : c.rest.current with
    | symbol mark =>
      have hfinish : c.rest.current.isFinish = false := by rw [ht]; rfl
      cases mark with
      | dot =>
        refine .advance_bind hc.toWithin hfinish fun _ c' hc' hlt => ?_
        refine (follows_memberName c' (hc'.stands hc)).bind fun name c'' hc'' _ => ?_
        have hle := hc''.length_le
        exact ih _ (hc''.stands (hc'.stands hc)) (by omega)
      | leftBracket =>
        refine .advance_bind hc.toWithin hfinish fun _ c' hc' hlt => ?_
        refine (h c' (hc'.stands hc)).bind fun index c'' hc'' _ => ?_
        refine (Follows.expect _ c'' (hc''.stands (hc'.stands hc))).bind fun stop c₃ hc₃ _ => ?_
        have hle := (hc''.trans hc₃).length_le
        exact ih _ ((hc''.trans hc₃).stands (hc'.stands hc)) (by omega)
      | leftParen =>
        refine .advance_bind hc.toWithin hfinish fun _ c' hc' hlt => ?_
        refine accords_list (follows_argument h) (hc'.stands hc) fun args stop c'' hc'' => ?_
        have hle := hc''.length_le
        exact ih _ (hc''.stands (hc'.stands hc)) (by omega)
      | _ => exact .pure hc.toWithin before
    | _ => exact .pure hc.toWithin before

/-- Each turn but the last one moves over a comma. -/
theorem accords_declarators {n : Nested} {kind : DeclarationWord}
    (hdeclarator : Follows d k (declarator kind).walk (Script.declarator n kind)) (fuel : Nat) :
    ∀ (before : List (String × Option Expr)) {c : Cursor}, c.Stands d k →
      c.rest.length ≤ fuel →
      (declarators kind before).walk.Accords
        ((fun r => (before ++ r.1, r.2)) <$> Script.declarators n kind fuel) c := by
  induction fuel with
  | zero => exact fun _ _ hc hfuel => absurd hfuel hc.not_spent
  | succ fuel ih =>
    intro before c hc hfuel
    rw [Rule.walk, Script.declarators, map_bind]
    refine (hdeclarator c hc).bind fun first c' hc' _ => ?_
    have hle := hc'.length_le
    rw [map_bind]
    refine .skip_bind (hc'.within hc.toWithin) (fun c'' hc'' hlt => ?_) ?_
    · rw [if_pos rfl, if_pos rfl]
      have hnext := ih (before ++ [first.1]) (hc''.stands (hc'.stands hc)) (by omega)
      refine hnext.congr ?_
      simp only [bind_pure_comp, Functor.map_map, List.append_assoc, List.singleton_append]
    · exact .pure (hc'.within hc.toWithin) (before ++ [first.1], first.2)

/-- Up to the brace that ends a block, which is there if the walk goes on; each turn takes a
statement. -/
theorem accords_blockStatements {x : Reading Stmt}
    (hstatement : Follows d k (nested .statement).walk x)
    (hlt : ∀ ts, x.Leaves ts fun _ rest => rest.length < ts.length) {f : List Stmt → Walk β}
    (fuel : Nat) : ∀ (before : List Stmt) {g : List Stmt → Reading β} {c : Cursor},
      (∀ body c', c.Leads c' → c'.rest.current = .symbol .rightBrace →
        (f (before ++ body)).Accords (g body) c') → c.Stands d k → c.rest.length ≤ fuel →
      ((blockStatements before).walk >>= f).Accords (statementsUntilBrace x fuel >>= g) c := by
  induction fuel with
  | zero => exact fun _ _ _ _ hc hfuel => absurd hfuel hc.not_spent
  | succ fuel ih =>
    intro before g c hf hc hfuel
    rw [Rule.walk, statementsUntilBrace, bind_assoc, bind_assoc]
    refine .current hc.toWithin ?_
    have hturn : (((nested .statement).walk >>= fun s =>
        (blockStatements (before ++ [s])).walk) >>= f).Accords ((x >>= fun s =>
        statementsUntilBrace x fuel >>= fun body => pure (s :: body)) >>= g) c := by
      simp only [bind_assoc, pure_bind]
      refine (hstatement c hc).bind fun s c' hc' hrun => ?_
      have hless := hlt c.rest s c'.rest hrun
      refine ih (before ++ [s]) (fun body c'' hc'' hbrace => ?_) (hc'.stands hc) (by omega)
      rw [List.append_assoc]
      exact hf (s :: body) c'' (hc'.trans hc'') hbrace
    cases ht : c.rest.current with
    | finish => exact (Follows.fail _ c hc).bind fun _ _ _ hrun => by cases hrun
    | symbol mark =>
      cases mark with
      | rightBrace =>
        have hbrace := hf [] c hc.toWithin.leads ht
        rw [List.append_nil] at hbrace
        exact hbrace
      | _ => exact hturn
    | _ => exact hturn

/-- Up to the closing token; each turn takes a statement. -/
theorem accords_statements {x : Reading Stmt} (hstatement : Follows d k (nested .statement).walk x)
    (hlt : ∀ ts, x.Leaves ts fun _ rest => rest.length < ts.length) (fuel : Nat) :
    ∀ (before : List Stmt) {c : Cursor}, c.Stands d k → c.rest.length ≤ fuel →
      (statements before).walk.Accords ((before ++ ·) <$> statementsUntilEnd x fuel) c := by
  induction fuel with
  | zero => exact fun _ _ hc hfuel => absurd hfuel hc.not_spent
  | succ fuel ih =>
    intro before c hc hfuel
    rw [Rule.walk, statementsUntilEnd, map_bind]
    refine .current hc.toWithin ?_
    cases c.rest.current.isFinish with
    | true =>
      rw [if_pos rfl, if_pos rfl, map_pure, List.append_nil]
      exact .pure hc.toWithin before
    | false =>
      rw [if_neg Bool.false_ne_true, if_neg Bool.false_ne_true, map_bind]
      refine (hstatement c hc).bind fun s c' hc' hrun => ?_
      have hless := hlt c.rest s c'.rest hrun
      refine (ih (before ++ [s]) (hc'.stands hc) (by omega)).congr ?_
      simp only [bind_pure_comp, Functor.map_map, List.append_assoc, List.singleton_append]

end Rule

end ModuleLoader.Script
