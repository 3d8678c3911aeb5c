import ModuleLoader.Proofs.Parallels
import ModuleLoader.Proofs.Rereadings
import ModuleLoader.Proofs.Rounds

/-! The walk through each rule accords with the reading of what the rule stands for, given that the
walks one level of nesting further in do. Where the nesting is at its limit they do, and so they do
at every depth. -/
namespace ModuleLoader.Script

open Walk

/-- Where this many constructs nest, these are the readings one level of nesting further in. -/
structure Nested.Guides (n : Nested) (d : Nat) : Prop where
  sound : n.Sound
  expression : ∀ k, Follows d k (Rule.nested .expression).walk n.expression
  operand : ∀ k, Follows d k (Rule.nested .unaryExpression).walk n.operand
  statement : ∀ k, Follows d k (Rule.nested .statement).walk (n.statement (0 < k))

namespace Nested.Guides

variable {n : Nested} {d k : Nat} {c : Cursor}

theorem shorter (h : n.Guides d) (l : Bool) (ts : Tokens) :
    (n.statement l).Leaves ts fun _ rest => rest.length < ts.length :=
  leaves_of_reads (c := .statement l) (h.sound.statement l) rfl ts

theorem block (h : n.Guides d) :
    Follows d k Rule.block.walk (Script.block (n.statement (0 < k))) := by
  rw [Rule.walk]
  refine (Follows.expect _).bind fun start c hc => .get ?_
  refine Rule.accords_blockStatements (h.statement k) (h.shorter _) _ [] ?_ hc (Nat.le_refl _)
  intro body c' hc' hbrace
  have hend : Follows d k (Walk.advance >>= fun stop => pure (body, start.merge stop))
      (Reading.advance >>= fun stop => pure (body, start.merge stop)) :=
    Follows.advance.bind fun _ => .pure _
  exact (hend c' (hc'.stands hc)).congr (run_expect hbrace _)

/-! ### Functions -/

theorem functionBody (h : n.Guides d) :
    Follows d k Rule.functionBody.walk (Script.block (n.statement false)) := by
  intro c hc
  rw [Rule.walk]
  have hblock := h.block (k := 0) { c with loops := 0 } ⟨⟨hc.closed, hc.lt⟩, hc.depth, rfl⟩
  refine hblock.around (fun c' => { c' with loops := c.loops }) rfl rfl fun c' hc' => ?_
  exact ⟨⟨hc'.tokens, hc'.depth, rfl, hc'.le, hc'.lt⟩, rfl⟩

theorem parameter : Follows d k (Rule.item .parameter).walk (Prod.fst <$> Reading.identifier) := by
  rw [Rule.walk]
  exact Follows.identifier.map

theorem functionRest (h : n.Guides d) (name : Option String) (start : Span) :
    Follows d k (Rule.functionRest name start).walk (functionRest n name start) := by
  rw [Rule.walk]
  refine (Follows.expect _).bind fun _ c hc => ?_
  refine Rule.accords_list parameter hc fun params _ c' hc' => ?_
  exact (h.functionBody.bind fun _ => .pure _) c' (hc'.stands hc)

/-- At its word, a function that need not have a name. -/
theorem functionExpression (h : n.Guides d) (hc : c.Stands d k)
    (hword : c.rest.current = .keyword .function) :
    (Rule.functionLiteral false).walk.Accords (functionExpression n) c := by
  rw [Rule.walk]
  refine .expectWord hc.toWithin hword fun start c' hc' => ?_
  have hstands := hc'.stands hc
  refine .current hstands.toWithin ?_
  cases ht : c'.rest.current with
  | identifier name =>
    refine .identifier hstands.toWithin ht fun _ c'' hc'' => ?_
    exact h.functionRest (some name) start c'' (hc''.stands hstands)
  | _ => exact h.functionRest none start c' hstands

/-- At its word, a function that has a name. -/
theorem functionDeclaration (h : n.Guides d) (hc : c.Stands d k)
    (hword : c.rest.current = .keyword .function) :
    (Rule.functionLiteral true).walk.Accords (functionDeclaration n) c := by
  rw [Rule.walk]
  refine .expectWord hc.toWithin hword fun start c' hc' => ?_
  have hstands := hc'.stands hc
  have hnamed : Follows d k
      (Walk.identifier >>= fun name => (Rule.functionRest (some name.1) start).walk)
      (Reading.identifier >>= fun name => Script.functionRest n (some name.1) start) :=
    Follows.identifier.bind fun name => h.functionRest (some name.1) start
  refine .look hstands.toWithin ?_
  cases c'.rest.current <;> exact hnamed c' hstands

/-! ### Expressions -/

theorem property (h : n.Guides d) : Follows d k (Rule.item .property).walk (property n) := by
  intro c hc
  rw [Rule.walk]
  refine .here hc.toWithin ?_
  unfold Walk.propertyKey
  rw [bind_assoc]
  refine .current hc.toWithin ?_
  have hvalue (key : String) : (do
      let _ ← Walk.advance
      if false && ((← Walk.isAt .comma) || (← Walk.isAt .rightBrace)) then
        return (key, Expr.identifier key c.rest.span)
      else
        let _ ← Walk.expect .colon
        return (key, ← (Rule.nested .expression).walk)).Accords (propertyValue n key) c := by
    refine (Follows.advance c hc).bind fun _ c' hc' _ => ?_
    have hstands := hc'.stands hc
    refine .lookAt hstands.toWithin (.lookAt hstands.toWithin ?_)
    rw [Bool.false_and, if_neg Bool.false_ne_true]
    exact ((Follows.expect _).bind fun _ => (h.expression k).bind fun _ => .pure _) c' hstands
  cases c.rest.current with
  | string key => exact hvalue key
  | number x => exact hvalue _
  | keyword word => exact hvalue word.text
  | identifier name =>
    rw [pure_bind]
    refine (Follows.advance.bind fun _ => (Follows.isAt _).bind fun isComma =>
      (Follows.isAt _).bind fun isBrace => ?_) c hc
    rw [Bool.true_and]
    exact .ite (.pure _) ((Follows.expect _).bind fun _ => (h.expression k).bind fun _ => .pure _)
  | _ => exact .fail_bind hc.toWithin _

/-- What stands between the commas of a list is read as well. -/
theorem item (h : n.Guides d) (i : Item) : ∃ x, Follows d k (Rule.item i).walk x := by
  cases i with
  | argument => exact ⟨_, Rule.follows_argument (h.expression k)⟩
  | property => exact ⟨_, h.property⟩
  | parameter => exact ⟨_, parameter⟩

theorem objectLiteral (h : n.Guides d) : Follows d k Rule.objectLiteral.walk (do
    let start ← Reading.expect .leftBrace
    let (properties, stop) ← Reading.listUntil .rightBrace (Script.property n)
    return .object properties (start.merge stop)) := by
  rw [Rule.walk]
  refine (Follows.expect _).bind fun start c hc => ?_
  exact Rule.accords_list h.property hc fun _ _ c' hc' => .pure (hc'.within hc.toWithin) _

/-- A token that is an expression of its own. -/
theorem leaf (make : Span → Expr) : Follows d k (do return make (← Walk.advance))
    (do return make (← Reading.advance)) :=
  Follows.advance.bind fun _ => .pure _

theorem primary (h : n.Guides d) : Follows d k (Rule.level .primary).walk (primary n) := by
  intro c hc
  rw [Rule.walk]
  refine .here hc.toWithin (.current hc.toWithin ?_)
  cases ht : c.rest.current with
  | number x => exact leaf (.number x) c hc
  | string text => exact leaf (.string text) c hc
  | identifier name => exact leaf (.identifier name) c hc
  | finish => exact Follows.fail _ c hc
  | keyword word =>
    cases word with
    | true => exact leaf (.bool true) c hc
    | false => exact leaf (.bool false) c hc
    | null => exact leaf .null c hc
    | this => exact leaf .this c hc
    | function =>
      exact (h.functionExpression hc ht).bind fun _ c' hc' _ => .pure (hc'.within hc.toWithin) _
    | _ => exact Follows.fail _ c hc
  | symbol mark =>
    cases mark with
    | leftParen =>
      exact (Follows.advance.bind fun _ => (h.expression k).bind fun _ =>
        (Follows.expect _).bind fun _ => .pure _) c hc
    | leftBracket =>
      refine (Follows.advance.bind fun _ c' hc' => ?_) c hc
      exact Rule.accords_list (Rule.follows_argument (h.expression k)) hc' fun _ _ c'' hc'' =>
        .pure (hc''.within hc'.toWithin) _
    | leftBrace =>
      refine (h.objectLiteral c hc).congr ?_
      rw [run_expect ht]
      rfl
    | _ => exact Follows.fail _ c hc

theorem callMember (h : n.Guides d) : Follows d k (Rule.level .callMember).walk (callMember n) := by
  rw [Rule.walk]
  refine h.primary.bind fun e c hc => ?_
  cases hopens : opensSuffix c.rest.current with
  | false =>
    rw [Rule.walk]
    refine .current hc.toWithin ?_
    rw [hopens, if_neg Bool.false_ne_true]
    -- The marks that open a suffix are ruled out.
    split
    · rename_i ht
      rw [ht] at hopens
      cases hopens
    · rename_i ht
      rw [ht] at hopens
      cases hopens
    · rename_i ht
      rw [ht] at hopens
      cases hopens
    · exact .pure hc.toWithin e
  | true =>
    refine .seen ?_
    rw [hopens, if_pos rfl]
    exact .get (Rule.accords_suffixes (h.expression k) c.rest.length e hc (Nat.le_refl _))

theorem updateOf (step : Step) (side : Side) (target : Expr) (start : Span) :
    Follows d k (Walk.updateOf step side target start) (updateOf step side target start) :=
  .ite (.pure _) (.failAt _ _)

theorem postfixed (h : n.Guides d) : Follows d k (Rule.level .postfixed).walk (postfixed n) := by
  rw [Rule.walk]
  refine h.callMember.bind fun e => Follows.current.bind fun t => ?_
  cases step? t with
  | some step => exact Follows.advance.bind fun stop => updateOf step .after e _
  | none => exact .pure e

theorem prefixUpdate (h : n.Guides d) (step : Step) :
    Follows d k (Rule.prefixUpdate step).walk (do
      let start ← Reading.advance
      let target ← n.operand
      Script.updateOf step .before target start) := by
  rw [Rule.walk]
  exact Follows.advance.bind fun start => (h.operand k).bind fun target => updateOf _ _ _ _

theorem unary (h : n.Guides d) : Follows d k (Rule.level .unary).walk (unary n) := by
  rw [Rule.walk]
  refine Follows.current.bind fun t => ?_
  cases unaryOp? t with
  | some op => exact Follows.advance.bind fun start => (h.operand k).bind fun _ => .pure _
  | none =>
    cases step? t with
    | some step => exact h.prefixUpdate step
    | none => exact h.postfixed

/-- The levels that join operands from the left, each out of the next tighter one. -/
theorem joined {l : Level} {β : Type} {x : Reading Expr} {op? : Token → Option β}
    {join : β → Expr → Expr → Expr} (hwalk : (Rule.level l).walk = (do
      let first ← (Rule.level l.tighter).walk
      (Rule.chain l first).walk))
    (hjoin : ∀ t, l.join? t = (op? t).map join) (hfinish : op? .finish = none)
    (hoperand : Follows d k (Rule.level l.tighter).walk x) :
    Follows d k (Rule.level l).walk (Reading.leftAssociative x op? join) := by
  rw [hwalk]
  exact Rule.follows_leftAssociative hjoin hfinish hoperand

theorem multiplicative (h : n.Guides d) :
    Follows d k (Rule.level .multiplicative).walk (multiplicative n) :=
  joined (by rw [Rule.walk] <;> decide) (fun _ => rfl) rfl h.unary

theorem additive (h : n.Guides d) : Follows d k (Rule.level .additive).walk (additive n) :=
  joined (by rw [Rule.walk] <;> decide) (fun _ => rfl) rfl h.multiplicative

theorem relational (h : n.Guides d) : Follows d k (Rule.level .relational).walk (relational n) :=
  joined (by rw [Rule.walk] <;> decide) (fun _ => rfl) rfl h.additive

theorem equality (h : n.Guides d) : Follows d k (Rule.level .equality).walk (equality n) :=
  joined (by rw [Rule.walk] <;> decide) (fun _ => rfl) rfl h.relational

theorem conjunction (h : n.Guides d) : Follows d k (Rule.level .conjunction).walk (conjunction n) :=
  joined (by rw [Rule.walk] <;> decide) (fun _ => rfl) rfl h.equality

theorem disjunction (h : n.Guides d) : Follows d k (Rule.level .disjunction).walk (disjunction n) :=
  joined (by rw [Rule.walk] <;> decide) (fun _ => rfl) rfl h.conjunction

theorem conditional (h : n.Guides d) :
    Follows d k (Rule.level .conditional).walk (conditional n) := by
  rw [Rule.walk]
  refine h.disjunction.bind fun test => (Follows.skip _).bind fun isConditional => .ite ?_ (.pure _)
  exact (h.expression k).bind fun _ => (Follows.expect _).bind fun _ =>
    (h.expression k).bind fun _ => .pure _

theorem assignment (h : n.Guides d) : Follows d k (Rule.level .assignment).walk (assignment n) := by
  rw [Rule.walk]
  refine h.conditional.bind fun target => Follows.current.bind fun t => ?_
  cases assignOp? t with
  | none => exact .pure target
  | some op =>
    exact .ite (Follows.advance.bind fun _ => (h.expression k).bind fun _ => .pure _) (.failAt _ _)

theorem level (h : n.Guides d) (l : Level) : Follows d k (Rule.level l).walk (n.at l) := by
  cases l with
  | primary => exact h.primary
  | callMember => exact h.callMember
  | postfixed => exact h.postfixed
  | unary => exact h.unary
  | multiplicative => exact h.multiplicative
  | additive => exact h.additive
  | relational => exact h.relational
  | equality => exact h.equality
  | conjunction => exact h.conjunction
  | disjunction => exact h.disjunction
  | conditional => exact h.conditional
  | assignment => exact h.assignment

/-! ### Statements -/

theorem declarator (h : n.Guides d) (kind : DeclarationWord) :
    Follows d k (Rule.declarator kind).walk (declarator n kind) := by
  rw [Rule.walk]
  refine Follows.identifier.bind fun name => (Follows.skip _).bind fun isInitialized => ?_
  refine .ite ?_ (.ite (.failAt _ _) (.pure _))
  exact (h.expression k).bind fun _ => .pure _

/-- At its word, a declaration. -/
theorem declaration (h : n.Guides d) (hc : c.Stands d k) {kind : DeclarationWord}
    (hkind : declarationWord? c.rest.current = some kind) :
    Rule.declaration.walk.Accords (declaration n kind) c := by
  rw [Rule.walk]
  refine .look hc.toWithin ?_
  rw [hkind]
  refine (Accords.advance hc.toWithin).bind fun start c' hc' _ => ?_
  have hstands := hc'.stands hc
  have hdeclarators : (Rule.declarators kind []).walk.Accords
      (declarators n kind c'.rest.length) c' := by
    simpa using Rule.accords_declarators (h.declarator kind) c'.rest.length [] hstands
      (Nat.le_refl _)
  refine .get (hdeclarators.bind fun _ c'' hc'' _ => ?_)
  exact .pure (hc''.within hstands.toWithin) _

theorem parenthesized (h : n.Guides d) : Follows d k Rule.parenthesized.walk (parenthesized n) := by
  rw [Rule.walk]
  exact (Follows.expect _).bind fun _ => (h.expression k).bind fun e =>
    (Follows.expect _).bind fun _ => .pure e

theorem ifStatement (h : n.Guides d) :
    Follows d k Rule.ifStatement.walk (ifStatement n (0 < k)) := by
  rw [Rule.walk]
  refine Follows.advance.bind fun start => h.parenthesized.bind fun condition =>
    (h.statement k).bind fun consequent => (Follows.skipWord _).bind fun hasAlternate => ?_
  exact .ite ((h.statement k).bind fun _ => .pure _) (.pure _)

/-- A loop surrounds what is walked through there. -/
theorem loopBody (h : n.Guides d) : Follows d k Rule.loopBody.walk (n.statement true) := by
  intro c hc
  rw [Rule.walk]
  have hbody := h.statement (k + 1) { c with loops := c.loops + 1 }
    ⟨⟨hc.closed, hc.lt⟩, hc.depth, congrArg (· + 1) hc.loops⟩
  rw [decide_eq_true (Nat.succ_pos k)] at hbody
  refine hbody.around (fun c' => { c' with loops := c'.loops - 1 }) rfl rfl fun c' hc' => ?_
  exact ⟨⟨hc'.tokens, hc'.depth, congrArg (· - 1) hc'.loops, hc'.le, hc'.lt⟩, rfl⟩

theorem whileStatement (h : n.Guides d) :
    Follows d k Rule.whileStatement.walk (whileStatement n) := by
  rw [Rule.walk]
  exact Follows.advance.bind fun _ => h.parenthesized.bind fun _ => h.loopBody.bind fun _ => .pure _

theorem forInit (h : n.Guides d) : Follows d k Rule.forInit.walk (forInit n) := by
  intro c hc
  rw [Rule.walk]
  refine .current hc.toWithin ?_
  cases hkind : declarationWord? c.rest.current with
  | some kind =>
    dsimp only
    rw [map_eq_pure_bind]
    exact (h.declaration hc hkind).bind fun s c' hc' _ => .pure (hc'.within hc.toWithin) (some s)
  | none => exact Follows.ite (.pure none) ((h.expression k).bind fun _ => .pure _) c hc

theorem expressionUnless (h : n.Guides d) (mark : Symbol) :
    Follows d k (Rule.expressionUnless mark).walk (expressionUnless n mark) := by
  rw [Rule.walk]
  exact (Follows.isAt mark).bind fun _ => .ite (.pure none) ((h.expression k).bind fun _ => .pure _)

theorem forStatement (h : n.Guides d) : Follows d k Rule.forStatement.walk (forStatement n) := by
  rw [Rule.walk]
  exact Follows.advance.bind fun _ => (Follows.expect _).bind fun _ => h.forInit.bind fun _ =>
    (Follows.expect _).bind fun _ => (h.expressionUnless _).bind fun _ =>
    (Follows.expect _).bind fun _ => (h.expressionUnless _).bind fun _ =>
    (Follows.expect _).bind fun _ => h.loopBody.bind fun _ => .pure _

theorem catchParam : Follows d k Walk.catchParam catchParam :=
  (Follows.skip _).bind fun _ => .ite
    (Follows.identifier.bind fun _ => (Follows.expect _).bind fun _ => .pure _) (.pure none)

theorem catchClause (h : n.Guides d) :
    Follows d k Rule.catchClause.walk (catchClause n (0 < k)) := by
  rw [Rule.walk]
  exact (Follows.skipWord _).bind fun _ => .ite
    (catchParam.bind fun _ => h.block.bind fun _ => .pure _) (.pure (none, none))

theorem finallyClause (h : n.Guides d) :
    Follows d k Rule.finallyClause.walk (finallyClause n (0 < k)) := by
  rw [Rule.walk]
  exact (Follows.skipWord _).bind fun _ => .ite (h.block.bind fun _ => .pure _) (.pure none)

theorem tryStatement (h : n.Guides d) :
    Follows d k Rule.tryStatement.walk (tryStatement n (0 < k)) := by
  rw [Rule.walk]
  refine Follows.advance.bind fun start => h.block.bind fun body =>
    h.catchClause.bind fun handler => h.finallyClause.bind fun finalizer => ?_
  obtain ⟨param, handler⟩ := handler
  cases handler with
  | some handler => exact .pure _
  | none =>
    cases finalizer with
    | some finalizer => exact .pure _
    | none => exact .fail _

theorem returnStatement (h : n.Guides d) :
    Follows d k Rule.returnStatement.walk (returnStatement n) := by
  rw [Rule.walk]
  refine Follows.advance.bind fun start => Follows.current.bind fun t => ?_
  exact .ite ((h.expression k).bind fun _ => .pure _) (.pure _)

theorem throwStatement (h : n.Guides d) :
    Follows d k Rule.throwStatement.walk (throwStatement n) := by
  rw [Rule.walk]
  exact Follows.advance.bind fun _ => (h.expression k).bind fun _ => .pure _

theorem exitStatement (word : Keyword) (make : Span → Stmt) :
    Follows d k (Walk.exitStatement word make) (exitStatement word make (0 < k)) :=
  fun c hc => .inLoop hc (Follows.ite (Follows.advance.bind fun _ => .pure _) (.fail _) c hc)

/-- A semicolon may end the statement. -/
theorem ended {w : Walk Stmt} {x : Reading Stmt} (hw : w.Accords x c) (hc : c.Stands d k) :
    (do let s ← w; Walk.endStatement; return s : Walk Stmt).Accords (ended x) c := by
  refine hw.bind fun s c' hc' _ => ?_
  unfold Walk.endStatement
  rw [bind_assoc]
  exact ((Follows.skip _).bind fun _ => .pure s) c' (hc'.stands hc)

theorem anyStatement (h : n.Guides d) :
    Follows d k Rule.anyStatement.walk (anyStatement n (0 < k)) := by
  intro c hc
  rw [Rule.walk]
  refine .current hc.toWithin ?_
  have hexpression : ((Rule.nested .expression).walk >>= fun e => Walk.endStatement >>= fun _ =>
      pure (.expression e)).Accords (Script.ended (.expression <$> n.expression)) c := by
    unfold Walk.endStatement Script.ended
    simp only [map_eq_pure_bind, bind_assoc, pure_bind]
    refine (h.expression k c hc).bind fun e c' hc' _ => ?_
    refine (Follows.skip _ c' (hc'.stands hc)).bind fun _ c'' hc'' _ => ?_
    exact .pure ((hc'.trans hc'').within hc.toWithin) _
  cases ht : c.rest.current with
  | keyword word =>
    cases word with
    | «let» => exact ended (h.declaration hc (by rw [ht]; rfl)) hc
    | «const» => exact ended (h.declaration hc (by rw [ht]; rfl)) hc
    | «var» => exact ended (h.declaration hc (by rw [ht]; rfl)) hc
    | function =>
      exact (h.functionDeclaration hc ht).bind fun _ c' hc' _ => .pure (hc'.within hc.toWithin) _
    | «if» => exact h.ifStatement c hc
    | «while» => exact h.whileStatement c hc
    | «for» => exact h.forStatement c hc
    | «try» => exact h.tryStatement c hc
    | «return» => exact ended (h.returnStatement c hc) hc
    | throw => exact ended (h.throwStatement c hc) hc
    | «break» => exact ended (exitStatement _ _ c hc) hc
    | «continue» => exact ended (exitStatement _ _ c hc) hc
    | new => exact Follows.fail _ c hc
    | _ => exact hexpression
  | symbol mark =>
    cases mark with
    | leftBrace => exact (h.block.bind fun _ => .pure _) c hc
    | semicolon => exact (Follows.advance.bind fun _ => .pure _) c hc
    | _ => exact hexpression
  | _ => exact hexpression

/-! ### Whole scripts -/

theorem program (h : n.Guides d) : Follows d k Rule.program.walk (do
    let start ← Reading.here
    let statements ← statementsUntilEnd (n.statement (0 < k)) (← get).length
    return ⟨statements, start.merge (← Reading.here)⟩) := by
  rw [Rule.walk]
  refine Follows.here.bind fun start c hc => .get ?_
  have hstatements : (Rule.statements []).walk.Accords
      (statementsUntilEnd (n.statement (0 < k)) c.rest.length) c := by
    simpa using Rule.accords_statements (h.statement k) (h.shorter _) c.rest.length [] hc
      (Nat.le_refl _)
  refine hstatements.bind fun _ c' hc' _ => ?_
  exact (Follows.here.bind fun _ => .pure _) c' (hc'.stands hc)

end Nested.Guides

/-! ### One level of nesting further in -/

section Nesting

variable {d k : Nat} {what : Construct}

theorem follows_tooDeep (hd : maxNesting ≤ d) :
    Follows d k (Rule.nested what).walk (tooDeep maxNesting what) := by
  intro c hc
  rw [Rule.walk]
  refine (Follows.fail _ c hc).of_outcome ?_
  exact if_pos (by rw [hc.depth]; exact Nat.lt_succ_of_le hd)

theorem follows_nested {x : Reading what.Tree} (hd : d < maxNesting)
    (h : Follows (d + 1) k what.rule.walk x) : Follows d k (Rule.nested what).walk x := by
  intro c hc
  rw [Rule.walk]
  have hinside := h { c with depth := c.depth + 1 }
    ⟨⟨hc.closed, hc.lt⟩, congrArg (· + 1) hc.depth, hc.loops⟩
  have hroom : ¬maxNesting < c.depth + 1 := by
    rw [hc.depth]
    exact Nat.not_lt_of_le hd
  refine hinside.around (fun c' => { c' with depth := c'.depth - 1 }) (if_neg hroom) rfl ?_
  intro c' hc'
  exact ⟨⟨hc'.tokens, congrArg (· - 1) hc'.depth, hc'.loops, hc'.le, hc'.lt⟩, rfl⟩

/-- The levels of nesting that are left where this many constructs nest. -/
theorem guides_nestedAt (left : Nat) : ∀ d, left = maxNesting - d →
    (nestedAt maxNesting left).Guides d := by
  induction left with
  | zero =>
    intro d hd
    have hdeep : maxNesting ≤ d := Nat.le_of_sub_eq_zero hd.symm
    exact ⟨sound_nestedAt _ _, fun _ => follows_tooDeep hdeep, fun _ => follows_tooDeep hdeep,
      fun _ => follows_tooDeep hdeep⟩
  | succ left ih =>
    intro d hd
    have hroom : d < maxNesting := by omega
    have hinside := ih (d + 1) (by omega)
    exact ⟨sound_nestedAt _ _, fun _ => follows_nested hroom hinside.assignment,
      fun _ => follows_nested hroom hinside.unary,
      fun _ => follows_nested hroom hinside.anyStatement⟩

end Nesting

end ModuleLoader.Script
