import ModuleLoader.Proofs.Landings
import ModuleLoader.Proofs.Statements

/-! The spans of a script. Every node that is read has an exact span, its parts lie within that, and
one behind the other; and what is wrong with a source is said to be at an exact place. From one
level of nesting to the next, this is so of whole scripts. -/
namespace ModuleLoader.Script

open Reading

variable {cs : List Char} {i j : Nat} {ts : Tokens}

/-- The expressions that are read lie where their tokens do. -/
def Reading.Places (cs : List Char) (x : Reading Expr) : Prop :=
  ∀ i ts, ts.Behind cs i → x.Lands cs ts fun e j => (Node.expr e).In cs i j

/-- What the readings further in read lies where its tokens do. -/
structure Nested.Lands (cs : List Char) (n : Nested) : Prop where
  expression : n.expression.Places cs
  operand : n.operand.Places cs
  statement (l : Bool) (i : Nat) (ts : Tokens) (hts : ts.Behind cs i) :
    (n.statement l).Lands cs ts fun s j => (Node.stmt s).In cs i j

namespace Reading.Places

variable {operand : Reading Expr}

theorem binary (h : operand.Places cs) {op? : Token → Option BinaryOp} (hop : op? .finish = none) :
    (leftAssociative operand op? Expr.join).Places cs :=
  fun _ _ hts => lands_leftAssociative (fun _ _ => Token.isFinish_of_eq_some hop) h
    (fun _ j _ _ _ _ he he' => .joined rfl rfl he (.nil (Nat.le_refl j)) he') hts

theorem logical (h : operand.Places cs) {op? : Token → Option LogicalOp}
    (hop : op? .finish = none) : (leftAssociative operand op? Expr.joinLogical).Places cs :=
  fun _ _ hts => lands_leftAssociative (fun _ _ => Token.isFinish_of_eq_some hop) h
    (fun _ j _ _ _ _ he he' => .joined rfl rfl he (.nil (Nat.le_refl j)) he') hts

end Reading.Places

/-- An expression that is a statement has the same span twice. -/
theorem Node.In.expression {e : Expr} (he : (Node.expr e).In cs i j) :
    (Node.stmt (.expression e)).In cs i j := by
  obtain ⟨a, b, hia, hab, hbj, hb, hspan, he⟩ := he.anchored
  exact .of_row hspan (.singleton he) hia hab hbj hb

namespace Nested.Lands

variable {n : Nested}

/-! ### Functions -/

/-- The body of a function lies behind the token at its start. -/
theorem functionRest (hn : n.Lands cs) (name : Option String) {a b c : Nat} (hab : a < b)
    (hbc : b ≤ c) (hts : ts.Behind cs c) : (functionRest n name (.cut cs a b)).Lands cs ts
      fun f j => ∃ d, b ≤ d ∧ d < j ∧ f.span = .cut cs a j ∧
        Row cs d j (f.body.map .stmt) := by
  unfold Script.functionRest
  refine Reading.Lands.expect hts fun d d' rest hcd hdd' hrest => ?_
  -- The names of parameters are no nodes.
  let nodes (_ : String) : List Node := []
  have hparam (i : Nat) (ts : Tokens) (hts : ts.Behind cs i) :
      (Prod.fst <$> identifier).Lands cs ts fun name j => Row cs i j (nodes name) := by
    rw [map_eq_pure_bind]
    exact Reading.Lands.identifier hts fun name a b rest hia hab hrest =>
      .pure hrest (.nil (by omega))
  refine (lands_listUntil hparam hrest).bind ?_
  rintro ⟨params, stop⟩ k rest hrest ⟨e, rfl, hek, hparams⟩
  have hde := hparams.le
  refine (lands_block (hn.statement false) hrest).bind ?_
  rintro ⟨body, stop⟩ j rest hrest ⟨p, hkp, hpj, rfl, hbody⟩
  exact .pure hrest ⟨p, by omega, hpj, Span.merge_cut (by omega) (by omega), hbody⟩

theorem functionExpression (hn : n.Lands cs) (hts : ts.Behind cs i)
    (hc : ts.current.isFinish = false) :
    (functionExpression n).Lands cs ts fun f j => (Node.expr (.function f)).In cs i j := by
  unfold Script.functionExpression
  refine Reading.Lands.advance hts rfl hc fun a b hia hab _ hrest => ?_
  have hread (name : Option String) {c : Nat} {ts : Tokens} (hbc : b ≤ c)
      (hts : ts.Behind cs c) : (Script.functionRest n name (.cut cs a b)).Lands cs ts
        fun f j => (Node.expr (.function f)).In cs i j := by
    refine (hn.functionRest name hab hbc hts).imp ?_
    rintro ⟨name, params, body, span⟩ j hj ⟨d, hbd, hdj, hspan, hbody⟩
    exact .bracketed hspan hbody hia (by omega) (Nat.le_refl j) hj
  refine Reading.Lands.current ?_
  split
  · rename_i hname
    refine Reading.Lands.advance hrest hname rfl fun c d hbc hcd _ hrest => ?_
    exact hread _ (by omega) hrest
  · exact hread _ (Nat.le_refl b) hrest

theorem functionDeclaration (hn : n.Lands cs) (hts : ts.Behind cs i)
    (hc : ts.current.isFinish = false) :
    (functionDeclaration n).Lands cs ts fun f j => (Node.stmt (.function f)).In cs i j := by
  unfold Script.functionDeclaration
  refine Reading.Lands.advance hts rfl hc fun a b hia hab _ hrest => ?_
  refine Reading.Lands.identifier hrest fun name c d rest hbc hcd hrest => ?_
  refine (hn.functionRest (some name) hab (by omega) hrest).imp ?_
  rintro ⟨name, params, body, span⟩ j hj ⟨d, hbd, hdj, hspan, hbody⟩
  exact .bracketed hspan hbody hia (by omega) (Nat.le_refl j) hj

/-! ### Expressions -/

theorem items (hn : n.Lands cs) (i : Nat) (ts : Tokens) (hts : ts.Behind cs i) :
    n.expression.Lands cs ts fun e j => Row cs i j [.expr e] :=
  (hn.expression i ts hts).imp fun _ _ _ he => .singleton he

theorem property (hn : n.Lands cs) (i : Nat) (ts : Tokens) (hts : ts.Behind cs i) :
    (property n).Lands cs ts fun p j => Row cs i j [.expr p.2] := by
  have hvalue (key : String) (hc : ts.current.isFinish = false) :
      (propertyValue n key).Lands cs ts fun p j => Row cs i j [.expr p.2] := by
    unfold propertyValue
    refine Reading.Lands.advance hts rfl hc fun a b hia hab _ hrest => ?_
    refine Reading.Lands.expect hrest fun c d rest hbc hcd hrest => ?_
    refine (hn.expression d rest hrest).bind fun e j rest hrest he => ?_
    exact .pure hrest (.singleton (he.mono (by omega) (Nat.le_refl j)))
  unfold Script.property
  refine Reading.Lands.here (Reading.Lands.current ?_)
  split
  case h_1 hc | h_2 hc | h_3 hc => exact hvalue _ (by rw [hc]; rfl)
  case h_4 name hc =>
    refine Reading.Lands.advance hts hc rfl fun a b hia hab hspan hrest => ?_
    refine Reading.Lands.isAt (Reading.Lands.isAt ?_)
    split
    · exact .pure hrest (.singleton (.token hspan rfl hia hab hrest.le_length))
    · refine Reading.Lands.expect hrest fun c d rest hbc hcd hrest => ?_
      refine (hn.expression d rest hrest).bind fun e j rest hrest he => ?_
      exact .pure hrest (.singleton (he.mono (by omega) (Nat.le_refl j)))
  case h_5 => exact .fail hts

theorem primary (hn : n.Lands cs) (hts : ts.Behind cs i) :
    (primary n).Lands cs ts fun e j => (Node.expr e).In cs i j := by
  unfold Script.primary
  refine Reading.Lands.here (Reading.Lands.current ?_)
  split
  case h_8 hc =>
    refine Reading.Lands.advance hts hc rfl fun a b hia hab _ hrest => ?_
    refine (hn.expression b _ hrest).bind fun e j rest hrest he => ?_
    refine Reading.Lands.expect hrest fun c d rest hjc hcd hrest => .pure hrest ?_
    exact he.mono (by omega) (by omega)
  case h_9 hc =>
    refine Reading.Lands.advance hts hc rfl fun a b hia hab hspan hrest => ?_
    refine (lands_listUntil hn.items hrest).bind ?_
    rintro ⟨items, stop⟩ j rest hrest ⟨c, rfl, hcj, hitems⟩
    have hbc := hitems.le
    rw [hspan]
    refine .pure hrest (.bracketed (Span.merge_cut (by omega) (by omega)) ?_ hia hab
      (Nat.le_of_lt hcj) hrest.le_length)
    rw [Node.parts, Expr.parts, List.map_eq_flatMap]
    exact hitems
  case h_10 hc =>
    refine Reading.Lands.advance hts hc rfl fun a b hia hab hspan hrest => ?_
    refine (lands_listUntil hn.property hrest).bind ?_
    rintro ⟨properties, stop⟩ j rest hrest ⟨c, rfl, hcj, hproperties⟩
    have hbc := hproperties.le
    rw [hspan]
    refine .pure hrest (.bracketed (Span.merge_cut (by omega) (by omega)) ?_ hia hab
      (Nat.le_of_lt hcj) hrest.le_length)
    rw [Node.parts, Expr.parts, List.map_eq_flatMap]
    exact hproperties
  case h_11 hc =>
    exact (hn.functionExpression hts (by rw [hc]; rfl)).bind fun f j rest hrest hf =>
      .pure hrest hf
  case h_12 | h_13 => exact .fail hts
  all_goals
    rename_i hc
    refine Reading.Lands.advance hts hc rfl fun a b hia hab _ hrest => .pure hrest ?_
    exact .token rfl rfl hia hab hrest.le_length

theorem memberName (hts : ts.Behind cs i) : memberName.Lands cs ts fun r j =>
    ∃ a, i ≤ a ∧ a < j ∧ r.2 = .cut cs a j := by
  unfold Script.memberName
  refine Reading.Lands.current ?_
  split
  · rename_i name hname
    have hc := Token.isFinish_of_eq_some rfl hname
    exact Reading.Lands.advance hts rfl hc fun a b hia hab _ hrest => .pure hrest ⟨a, hia, hab, rfl⟩
  · exact .fail hts

theorem suffixes (hn : n.Lands cs) (fuel : Nat) : ∀ e j ts, ts.Behind cs j →
    (Node.expr e).In cs i j →
      (suffixes n fuel e).Lands cs ts fun e j => (Node.expr e).In cs i j := by
  induction fuel with
  | zero => exact fun e j ts hts he => .pure hts he
  | succ fuel ih =>
    intro e j ts hts he
    unfold Script.suffixes
    refine Reading.Lands.current ?_
    split
    case h_1 hc =>
      refine Reading.Lands.advance hts hc rfl fun a b hja hab _ hrest => ?_
      refine (memberName hrest).bind ?_
      rintro ⟨name, stop⟩ k rest hrest ⟨c, hbc, hck, rfl⟩
      refine ih _ k rest hrest ?_
      exact .closed rfl rfl he (.nil (by omega)) hck hrest.le_length
    case h_2 hc =>
      refine Reading.Lands.advance hts hc rfl fun a b hja hab _ hrest => ?_
      refine (hn.expression b _ hrest).bind fun e' k rest hrest he' => ?_
      refine Reading.Lands.expect hrest fun c d rest hkc hcd hrest => ih _ d rest hrest ?_
      refine .closed rfl rfl he (.singleton ?_) hcd hrest.le_length
      exact he'.mono (by omega) hkc
    case h_3 hc =>
      refine Reading.Lands.advance hts hc rfl fun a b hja hab _ hrest => ?_
      refine (lands_listUntil hn.items hrest).bind ?_
      rintro ⟨args, stop⟩ k rest hrest ⟨c, rfl, hck, hargs⟩
      refine ih _ k rest hrest (.closed rfl rfl he ?_ hck hrest.le_length)
      exact List.map_eq_flatMap ▸ hargs.mono (by omega) (Nat.le_refl c)
    case h_4 => exact .pure hts he

theorem callMember (hn : n.Lands cs) (hts : ts.Behind cs i) :
    (callMember n).Lands cs ts fun e j => (Node.expr e).In cs i j := by
  unfold Script.callMember
  refine (hn.primary hts).bind fun e j rest hrest he => Reading.Lands.current ?_
  split
  · exact Reading.Lands.get (hn.suffixes _ e j rest hrest he)
  · exact .pure hrest he

theorem postfixed (hn : n.Lands cs) (hts : ts.Behind cs i) :
    (postfixed n).Lands cs ts fun e j => (Node.expr e).In cs i j := by
  unfold Script.postfixed
  refine (hn.callMember hts).bind fun e j rest hrest he => Reading.Lands.current ?_
  split
  · rename_i step hstep
    have hc := Token.isFinish_of_eq_some rfl hstep
    refine Reading.Lands.advance hrest rfl hc fun a b hja hab _ hrest' => ?_
    unfold updateOf
    split
    · refine .pure hrest' ?_
      obtain ⟨c, d, hic, hcd, hdj, hd, hspan, he⟩ := he.anchored
      have hmerged : (e.span.merge (.cut cs a b)).merge e.span = .cut cs c b := by
        replace hspan : e.span = .cut cs c d := hspan
        rw [hspan, Span.merge_cut (by omega) (by omega), Span.merge_cut_max (Nat.le_refl c),
          Nat.max_eq_left (by omega)]
      exact .of_row hmerged (.singleton (he.mono (Nat.le_refl c) (by omega))) hic (by omega)
        (Nat.le_refl b) hrest'.le_length
    · exact .failAt he.exact
  · exact .pure hrest he

theorem unary (hn : n.Lands cs) (hts : ts.Behind cs i) :
    (unary n).Lands cs ts fun e j => (Node.expr e).In cs i j := by
  unfold Script.unary
  refine Reading.Lands.current ?_
  split
  · rename_i op hop
    have hc := Token.isFinish_of_eq_some rfl hop
    refine Reading.Lands.advance hts rfl hc fun a b hia hab _ hrest => ?_
    refine (hn.operand b _ hrest).bind fun e j rest hrest he => .pure hrest ?_
    exact .opened rfl rfl hia hab (.nil (Nat.le_refl b)) he
  · rename_i step hstep
    have hc := Token.isFinish_of_eq_some rfl hstep
    refine Reading.Lands.advance hts rfl hc fun a b hia hab _ hrest => ?_
    refine (hn.operand b _ hrest).bind fun e j rest hrest he => ?_
    unfold updateOf
    split
    · exact .pure hrest (.opened rfl rfl hia hab (.nil (Nat.le_refl b)) he)
    · exact .failAt he.exact
  · exact hn.postfixed hts

theorem disjunction (hn : n.Lands cs) (hts : ts.Behind cs i) :
    (disjunction n).Lands cs ts fun e j => (Node.expr e).In cs i j := by
  have hunary : (Script.unary n).Places cs := fun _ _ hts => hn.unary hts
  have hmultiplicative : (multiplicative n).Places cs := hunary.binary rfl
  have hadditive : (additive n).Places cs := hmultiplicative.binary rfl
  have hrelational : (relational n).Places cs := hadditive.binary rfl
  have hequality : (equality n).Places cs := hrelational.binary rfl
  have hconjunction : (conjunction n).Places cs := hequality.logical rfl
  have hdisjunction : (Script.disjunction n).Places cs := hconjunction.logical rfl
  exact hdisjunction i ts hts

theorem conditional (hn : n.Lands cs) (hts : ts.Behind cs i) :
    (conditional n).Lands cs ts fun e j => (Node.expr e).In cs i j := by
  unfold Script.conditional
  refine (hn.disjunction hts).bind fun e j rest hrest he => ?_
  refine Reading.Lands.skip hrest fun asks k rest hjk hrest => ?_
  cases asks with
  | true =>
    refine (hn.expression k rest hrest).bind fun e' l rest hrest he' => ?_
    refine Reading.Lands.expect hrest fun a b rest hla hab hrest => ?_
    refine (hn.expression b rest hrest).bind fun e'' p rest hrest he'' => .pure hrest ?_
    have hbetween : Row cs j b [.expr e'] := .singleton (he'.mono hjk (by omega))
    exact .joined rfl rfl he hbetween he''
  | false => exact .pure hrest (he.mono (Nat.le_refl i) hjk)

theorem assignment (hn : n.Lands cs) (hts : ts.Behind cs i) :
    (assignment n).Lands cs ts fun e j => (Node.expr e).In cs i j := by
  unfold Script.assignment
  refine (hn.conditional hts).bind fun e j rest hrest he => Reading.Lands.current ?_
  split
  · exact .pure hrest he
  · rename_i op hop
    split
    · have hc := Token.isFinish_of_eq_some rfl hop
      refine Reading.Lands.advance hrest rfl hc fun a b hja hab _ hrest => ?_
      refine (hn.expression b _ hrest).bind fun e' k rest hrest he' => .pure hrest ?_
      exact .joined rfl rfl he (.nil (by omega)) he'
    · exact .failAt he.exact

/-! ### Statements -/

/-- The value of a variable, if it has one, lies before the place where the variable ends. -/
theorem declarator (hn : n.Lands cs) (kind : DeclarationWord) (hts : ts.Behind cs i) :
    (declarator n kind).Lands cs ts fun r j => ∃ a b, i ≤ a ∧ a < b ∧ b ≤ j ∧ r.2 = .cut cs a b ∧
      Row cs i b (r.1.2.map Node.expr).toList := by
  unfold Script.declarator
  refine Reading.Lands.identifier hts fun name a b rest hia hab hrest => ?_
  refine Reading.Lands.skip hrest fun assigned j rest hbj hrest => ?_
  cases assigned with
  | true =>
    refine (hn.expression j rest hrest).bind fun e k rest hrest he => .pure hrest ?_
    obtain ⟨c, d, hjc, hcd, hdk, -, hspan, he⟩ := he.anchored
    exact ⟨c, d, by omega, hcd, hdk, hspan, .singleton (he.mono (by omega) (Nat.le_refl d))⟩
  | false =>
    rw [if_neg Bool.false_ne_true]
    split
    · exact .failAt (Span.exact_cut (Nat.le_of_lt hab))
    · exact .pure hrest ⟨a, b, hia, hab, hbj, rfl, .nil (by omega)⟩

theorem declarators (hn : n.Lands cs) (kind : DeclarationWord) (fuel : Nat) : ∀ i ts,
    ts.Behind cs i → (declarators n kind fuel).Lands cs ts fun r j =>
      ∃ a b, i ≤ a ∧ a < b ∧ b ≤ j ∧ r.2 = .cut cs a b ∧
        Row cs i b (r.1.flatMap fun d => (d.2.map Node.expr).toList) := by
  induction fuel with
  | zero => exact fun i ts hts => .fail hts
  | succ fuel ih =>
    intro i ts hts
    unfold Script.declarators
    refine (hn.declarator kind hts).bind ?_
    rintro ⟨d, stop⟩ j rest hrest ⟨a, b, hia, hab, hbj, rfl, hd⟩
    refine Reading.Lands.skip hrest fun more k rest hjk hrest => ?_
    cases more with
    | true =>
      refine (ih k rest hrest).bind ?_
      rintro ⟨ds, stop⟩ l rest hrest ⟨a', b', hka', hab', hbl', rfl, hds⟩
      refine .pure hrest ⟨a', b', by omega, hab', hbl', rfl, ?_⟩
      exact hd.append (hds.mono (by omega) (Nat.le_refl b'))
    | false =>
      refine .pure hrest ⟨a, b, hia, hab, by omega, rfl, ?_⟩
      rw [List.flatMap_singleton]
      exact hd

theorem declaration (hn : n.Lands cs) (kind : DeclarationWord) (hts : ts.Behind cs i)
    (hc : ts.current.isFinish = false) :
    (declaration n kind).Lands cs ts fun s j => (Node.stmt s).In cs i j := by
  unfold Script.declaration
  refine Reading.Lands.advance hts rfl hc fun a b hia hab _ hrest => Reading.Lands.get ?_
  refine (hn.declarators kind _ b _ hrest).bind ?_
  rintro ⟨ds, stop⟩ j rest hrest ⟨c, d, hbc, hcd, hdj, rfl, hds⟩
  have hj := hrest.le_length
  have hin : (Node.stmt (.declaration kind ds ((Span.cut cs a b).merge (.cut cs c d)))).In cs i d :=
    .bracketed (Span.merge_cut (by omega) (by omega)) hds hia hab (Nat.le_refl d) (by omega)
  exact .pure hrest (hin.mono (Nat.le_refl i) hdj)

theorem ended {x : Reading Stmt} (hx : x.Lands cs ts fun s j => (Node.stmt s).In cs i j) :
    (ended x).Lands cs ts fun s j => (Node.stmt s).In cs i j := by
  unfold Script.ended
  refine hx.bind fun s j rest hrest hs => Reading.Lands.skip hrest fun _ k rest hjk hrest => ?_
  exact .pure hrest (hs.mono (Nat.le_refl i) hjk)

theorem parenthesized (hn : n.Lands cs) (hts : ts.Behind cs i) :
    (parenthesized n).Lands cs ts fun e j => (Node.expr e).In cs i j := by
  unfold Script.parenthesized
  refine Reading.Lands.expect hts fun a b rest hia hab hrest => ?_
  refine (hn.expression b rest hrest).bind fun e j rest hrest he => ?_
  refine Reading.Lands.expect hrest fun c d rest hjc hcd hrest => .pure hrest ?_
  exact he.mono (by omega) (by omega)

theorem ifStatement (hn : n.Lands cs) (l : Bool) (hts : ts.Behind cs i)
    (hc : ts.current.isFinish = false) :
    (ifStatement n l).Lands cs ts fun s j => (Node.stmt s).In cs i j := by
  unfold Script.ifStatement
  refine Reading.Lands.advance hts rfl hc fun a b hia hab _ hrest => ?_
  refine (hn.parenthesized hrest).bind fun e j rest hrest he => ?_
  refine (hn.statement l j rest hrest).bind fun s k rest hrest hs => ?_
  refine Reading.Lands.skipWord hrest fun more p rest hkp hrest => ?_
  cases more with
  | true =>
    refine (hn.statement l p rest hrest).bind fun s' q rest hrest hs' => .pure hrest ?_
    have hbefore : Row cs b p [.expr e, .stmt s] :=
      .cons he (.singleton (hs.mono (Nat.le_refl j) hkp))
    exact .opened rfl rfl hia hab hbefore hs'
  | false =>
    refine .pure hrest ?_
    exact .opened rfl rfl hia hab (.singleton he) (hs.mono (Nat.le_refl j) hkp)

theorem whileStatement (hn : n.Lands cs) (hts : ts.Behind cs i)
    (hc : ts.current.isFinish = false) :
    (whileStatement n).Lands cs ts fun s j => (Node.stmt s).In cs i j := by
  unfold Script.whileStatement
  refine Reading.Lands.advance hts rfl hc fun a b hia hab _ hrest => ?_
  refine (hn.parenthesized hrest).bind fun e j rest hrest he => ?_
  refine (hn.statement true j rest hrest).bind fun s k rest hrest hs => .pure hrest ?_
  exact .opened rfl rfl hia hab (.singleton he) hs

theorem forInit (hn : n.Lands cs) (hts : ts.Behind cs i) :
    (forInit n).Lands cs ts fun r j => Row cs i j (r.map Node.stmt).toList := by
  unfold Script.forInit
  refine Reading.Lands.current ?_
  split
  · rename_i kind hkind
    have hc := Token.isFinish_of_eq_some rfl hkind
    exact Reading.Lands.map ((hn.declaration kind hts hc).imp fun s j _ hs => .singleton hs)
  · split
    · exact .pure hts (.nil (Nat.le_refl i))
    · refine (hn.expression i ts hts).bind fun e j rest hrest he => ?_
      exact .pure hrest (.singleton he.expression)

theorem expressionUnless (hn : n.Lands cs) (mark : Symbol) (hts : ts.Behind cs i) :
    (expressionUnless n mark).Lands cs ts fun r j => Row cs i j (r.map Node.expr).toList := by
  unfold Script.expressionUnless
  refine Reading.Lands.isAt ?_
  split
  · exact .pure hts (.nil (Nat.le_refl i))
  · exact (hn.expression i ts hts).bind fun e j rest hrest he => .pure hrest (.singleton he)

theorem forStatement (hn : n.Lands cs) (hts : ts.Behind cs i) (hc : ts.current.isFinish = false) :
    (forStatement n).Lands cs ts fun s j => (Node.stmt s).In cs i j := by
  unfold Script.forStatement
  refine Reading.Lands.advance hts rfl hc fun a b hia hab _ hrest => ?_
  refine Reading.Lands.expect hrest fun c d rest hbc hcd hrest => ?_
  refine (hn.forInit hrest).bind fun init j rest hrest hinit => ?_
  refine Reading.Lands.expect hrest fun c' d' rest hjc hcd' hrest => ?_
  refine (hn.expressionUnless _ hrest).bind fun e k rest hrest he => ?_
  refine Reading.Lands.expect hrest fun c'' d'' rest hkc hcd'' hrest => ?_
  refine (hn.expressionUnless _ hrest).bind fun e' l rest hrest he' => ?_
  refine Reading.Lands.expect hrest fun c₃ d₃ rest hlc hcd₃ hrest => ?_
  refine (hn.statement true d₃ rest hrest).bind fun s q rest hrest hs => .pure hrest ?_
  refine .opened rfl rfl hia hab (Row.append (Row.append ?_ he) ?_) hs
  · exact hinit.mono (by omega) (by omega)
  · exact he'.mono (by omega) (by omega)

/-- A clause, if it is there, lies between two characters and ends at the second. -/
def Clause (cs : List Char) (i j : Nat) (r : Option (List Stmt × Span)) : Prop :=
  Row cs i j (((r.map Prod.fst).getD []).map .stmt) ∧
    ∀ b ∈ r, ∃ a, i ≤ a ∧ a < j ∧ b.2 = .cut cs a j

theorem clause (hn : n.Lands cs) (l : Bool) {k : Nat} (hki : k ≤ i) (hts : ts.Behind cs i) :
    (block (n.statement l)).Lands cs ts fun r j => Clause cs k j (some r) := by
  refine (lands_block (hn.statement l) hts).imp ?_
  rintro ⟨body, span⟩ j - ⟨a, hia, haj, rfl, hbody⟩
  refine ⟨hbody.mono (by omega) (Nat.le_refl j), ?_⟩
  rintro _ ⟨⟩
  exact ⟨a, by omega, haj, rfl⟩

theorem catchParam (hts : ts.Behind cs i) : catchParam.Lands cs ts fun _ j => i ≤ j := by
  unfold Script.catchParam
  refine Reading.Lands.skip hts fun opens j rest hij hrest => ?_
  cases opens with
  | true =>
    refine Reading.Lands.identifier hrest fun name a b rest hja hab hrest => ?_
    exact Reading.Lands.expect hrest fun c d rest hbc hcd hrest => .pure hrest (by omega)
  | false => exact .pure hrest hij

theorem catchClause (hn : n.Lands cs) (l : Bool) (hts : ts.Behind cs i) :
    (catchClause n l).Lands cs ts fun r j => Clause cs i j r.2 := by
  unfold Script.catchClause
  refine Reading.Lands.skipWord hts fun more j rest hij hrest => ?_
  cases more with
  | true =>
    refine (catchParam hrest).bind fun param k rest hrest hjk => ?_
    exact (hn.clause l (by omega) hrest).bind fun b q rest hrest hb => .pure hrest hb
  | false => exact .pure hrest ⟨.nil hij, nofun⟩

theorem finallyClause (hn : n.Lands cs) (l : Bool) (hts : ts.Behind cs i) :
    (finallyClause n l).Lands cs ts fun r j => Clause cs i j r := by
  unfold Script.finallyClause
  refine Reading.Lands.skipWord hts fun more j rest hij hrest => ?_
  cases more with
  | true => exact (hn.clause l hij hrest).bind fun b q rest hrest hb => .pure hrest hb
  | false => exact .pure hrest ⟨.nil hij, nofun⟩

theorem tryStatement (hn : n.Lands cs) (l : Bool) (hts : ts.Behind cs i)
    (hc : ts.current.isFinish = false) :
    (tryStatement n l).Lands cs ts fun s j => (Node.stmt s).In cs i j := by
  unfold Script.tryStatement
  refine Reading.Lands.advance hts rfl hc fun a b hia hab _ hrest => ?_
  refine (lands_block (hn.statement l) hrest).bind ?_
  rintro ⟨body, bodySpan⟩ j rest hrest ⟨c, hbc, hcj, rfl, hbody⟩
  refine (hn.catchClause l hrest).bind ?_
  rintro ⟨param, handler⟩ k rest hrest ⟨hhandler, hhspan⟩
  refine (hn.finallyClause l hrest).bind ?_
  rintro finalizer q rest hrest ⟨hfinalizer, hfspan⟩
  have hjk := hhandler.le
  have hkq := hfinalizer.le
  have hq := hrest.le_length
  have hbody' : Row cs b j (body.map .stmt) := hbody.mono hbc (Nat.le_refl j)
  have hparts := (hbody'.append hhandler).append hfinalizer
  dsimp only
  split
  · exact .fail hrest
  · rename_i hclause
    refine .pure hrest ?_
    cases finalizer with
    | some f =>
      obtain ⟨d, hkd, hdq, hspan⟩ := hfspan f rfl
      refine .bracketed ?_ hparts hia hab (Nat.le_refl q) hq
      show Span.merge _ f.2 = _
      rw [hspan, Span.merge_cut (by omega) (by omega)]
    | none =>
      cases handler with
      | some h =>
        obtain ⟨d, hjd, hdk, hspan⟩ := hhspan h rfl
        refine Node.In.mono ?_ (Nat.le_refl i) hkq
        refine .bracketed ?_ ?_ hia hab (Nat.le_refl k) (by omega)
        · show Span.merge _ h.2 = _
          rw [hspan, Span.merge_cut (by omega) (by omega)]
        · simpa [Node.parts, Stmt.parts] using hbody'.append hhandler
      | none => exact absurd rfl (hclause rfl)

theorem returnStatement (hn : n.Lands cs) (hts : ts.Behind cs i)
    (hc : ts.current.isFinish = false) :
    (returnStatement n).Lands cs ts fun s j => (Node.stmt s).In cs i j := by
  unfold Script.returnStatement
  refine Reading.Lands.advance hts rfl hc fun a b hia hab _ hrest => Reading.Lands.current ?_
  split
  · refine (hn.expression b _ hrest).bind fun e j rest hrest he => .pure hrest ?_
    exact .opened rfl rfl hia hab (.nil (Nat.le_refl b)) he
  · exact .pure hrest (.token rfl rfl hia hab hrest.le_length)

theorem throwStatement (hn : n.Lands cs) (hts : ts.Behind cs i)
    (hc : ts.current.isFinish = false) :
    (throwStatement n).Lands cs ts fun s j => (Node.stmt s).In cs i j := by
  unfold Script.throwStatement
  refine Reading.Lands.advance hts rfl hc fun a b hia hab _ hrest => ?_
  refine (hn.expression b _ hrest).bind fun e j rest hrest he => .pure hrest ?_
  exact .opened rfl rfl hia hab (.nil (Nat.le_refl b)) he

theorem exitStatement {make : Span → Stmt} (word : Keyword) (l : Bool) (hts : ts.Behind cs i)
    (hc : ts.current.isFinish = false)
    (hmake : ∀ span, (make span).span = span ∧ (make span).parts = []) :
    (exitStatement word make l).Lands cs ts fun s j => (Node.stmt s).In cs i j := by
  unfold Script.exitStatement
  split
  · refine Reading.Lands.advance hts rfl hc fun a b hia hab _ hrest => .pure hrest ?_
    exact .token (hmake _).1 (hmake _).2 hia hab hrest.le_length
  · exact .fail hts

theorem anyStatement (hn : n.Lands cs) (l : Bool) (hts : ts.Behind cs i) :
    (anyStatement n l).Lands cs ts fun s j => (Node.stmt s).In cs i j := by
  unfold Script.anyStatement
  refine Reading.Lands.current ?_
  split
  case h_1 hc | h_2 hc | h_3 hc => exact ended (hn.declaration _ hts (by rw [hc]; rfl))
  case h_4 hc =>
    exact (hn.functionDeclaration hts (by rw [hc]; rfl)).bind fun f j rest hrest hf =>
      .pure hrest hf
  case h_5 hc => exact hn.ifStatement l hts (by rw [hc]; rfl)
  case h_6 hc => exact hn.whileStatement hts (by rw [hc]; rfl)
  case h_7 hc => exact hn.forStatement hts (by rw [hc]; rfl)
  case h_8 hc => exact hn.tryStatement l hts (by rw [hc]; rfl)
  case h_9 hc => exact ended (hn.returnStatement hts (by rw [hc]; rfl))
  case h_10 hc => exact ended (hn.throwStatement hts (by rw [hc]; rfl))
  case h_11 hc | h_12 hc =>
    exact ended (exitStatement _ l hts (by rw [hc]; rfl) fun _ => ⟨rfl, rfl⟩)
  case h_13 => exact .fail hts
  case h_14 =>
    refine (lands_block (hn.statement l) hts).bind ?_
    rintro ⟨body, span⟩ j rest hrest ⟨a, hia, haj, hspan, hbody⟩
    exact .pure hrest (.of_row hspan hbody hia haj (Nat.le_refl j) hrest.le_length)
  case h_15 hc =>
    refine Reading.Lands.advance hts hc rfl fun a b hia hab _ hrest => .pure hrest ?_
    exact .token rfl rfl hia hab hrest.le_length
  case h_16 =>
    exact ended (.map ((hn.expression i ts hts).imp fun e j _ he => he.expression))

end Nested.Lands

/-! ### Scripts -/

theorem lands_tooDeep {α : Type} {Q : α → Nat → Prop} (limit : Nat) (what : Construct)
    (hts : ts.Behind cs i) : (tooDeep limit what).Lands cs ts Q :=
  .fail hts

/-- However many levels of nesting are left, what is read lies where its tokens do. -/
theorem lands_nestedAt (cs : List Char) (limit left : Nat) : (nestedAt limit left).Lands cs := by
  induction left with
  | zero =>
    exact ⟨fun _ _ hts => lands_tooDeep limit .expression hts,
      fun _ _ hts => lands_tooDeep limit .unaryExpression hts,
      fun _ _ _ hts => lands_tooDeep limit .statement hts⟩
  | succ left ih =>
    exact ⟨fun _ _ hts => ih.assignment hts, fun _ _ hts => ih.unary hts,
      fun l _ _ hts => ih.anyStatement l hts⟩

/-- The tokens lie behind the start of the first of them. -/
theorem Tokens.Behind.from_start (h : ts.Behind cs i) :
    ∃ a b, a ≤ b ∧ ts.span = .cut cs a b ∧ i ≤ a ∧ ts.Behind cs a := by
  cases h with
  | finish hi => exact ⟨_, _, Nat.le_refl _, rfl, hi, .finish (Nat.le_refl _)⟩
  | @token _ a b t ts hia hab ht hspan hts =>
    exact ⟨a, b, Nat.le_of_lt hab, hspan, hia, .token (Nat.le_refl a) hab ht hspan hts⟩

namespace Program

theorem lands_programAt (limit : Nat) (hts : ts.Behind cs i) :
    (programAt limit).Lands cs ts fun p _ =>
      (∀ s ∈ p.statements, (Node.stmt s).Everywhere (Node.Placed cs) ∧
        p.span.start ≤ s.span.start ∧ s.span.stop ≤ p.span.stop) ∧
      p.statements.Pairwise fun s s' => s.span.stop ≤ s'.span.start := by
  have hstatement (i : Nat) (ts : Tokens) (hts : ts.Behind cs i) :=
    (lands_nestedAt cs limit limit).statement false i ts hts
  obtain ⟨a, b, hab, hspan, -, hts⟩ := hts.from_start
  unfold programAt
  refine Reading.Lands.here (Reading.Lands.get ?_)
  refine (lands_statementsUntilEnd hstatement _ a ts hts).bind fun body j rest hrest hbody => ?_
  obtain ⟨c, d, hcd, hspan', hjc, -⟩ := hrest.from_start
  refine Reading.Lands.here (.pure hrest ?_)
  obtain ⟨hall, hpairwise⟩ := hbody.placed
  have haj := hbody.le
  rw [hspan, hspan', Span.merge_cut_max (by omega)]
  refine ⟨fun s hs => ?_, List.pairwise_map.mp hpairwise⟩
  obtain ⟨hstart, hstop, hplaced⟩ := hall _ (List.mem_map_of_mem hs)
  exact ⟨hplaced, hstart, hstop.trans (offset_mono cs (by omega))⟩

/-- Every statement, expression and function of an accepted script has an exact span that is not
empty, the spans of its parts lie within that, and one behind the other; and so do the statements of
the script itself. What makes a source with proper tokens no script is at an exact place of it. -/
theorem spans_exact (source : String) :
    (∀ {p}, ofSource source = .ok p →
      (∀ s ∈ p.statements, (Node.stmt s).Everywhere (Node.Placed source.toList) ∧
        p.span.start ≤ s.span.start ∧ s.span.stop ≤ p.span.stop) ∧
      p.statements.Pairwise fun s s' => s.span.stop ≤ s'.span.start) ∧
    ∀ {e}, ofSource source = .error (.parse e) →
      e.span.Exact source.toList ∧ e.span.start ≤ e.span.stop ∧
        e.span.stop ≤ source.utf8ByteSize := by
  unfold ofSource
  by_cases hfaults : faultsOf (finds .start source.toList) = []
  · have hbehind := (laid_finds [] source.toList).behind rfl
      (by rwa [← Position.start_eq_behind])
    rw [← Position.start_eq_behind] at hbehind
    have hlands := lands_programAt maxNesting hbehind
    have hend : Span.of source.toList [] =
        .cut source.toList source.toList.length source.toList.length :=
      Span.of_eq_cut (show source.toList = source.toList ++ [] ++ [] by simp)
    rw [tokenize_ok hfaults, hend]
    unfold ofTokens
    dsimp only
    cases hrun : (programAt maxNesting).run (tokensOf (finds .start source.toList) ++
        [⟨.finish, .cut source.toList source.toList.length source.toList.length⟩]) with
    | ok r =>
      refine ⟨?_, nofun⟩
      rintro _ ⟨⟩
      obtain ⟨-, -, hp⟩ := hlands.1 r.1 r.2 hrun
      exact hp
    | error e =>
      refine ⟨nofun, ?_⟩
      rintro _ ⟨⟩
      have hexact := hlands.2 e hrun
      rw [← textSize_toList]
      exact ⟨hexact, hexact.bounds⟩
  · rw [tokenize_error hfaults]
    exact ⟨nofun, nofun⟩

/-- A script of one statement, and a text that is none for the number in its second line. -/
theorem spans_exact_sample : ∃ p e,
    ofSource "(a) + f(1, [\"ü\"]);" = .ok p ∧ p.size = 1 ∧
    (∀ s ∈ p.statements,
      (Node.stmt s).Everywhere (Node.Placed "(a) + f(1, [\"ü\"]);".toList)) ∧
    ofSource "x;\nlet 1" = .error (.parse e) ∧ e.span = ⟨7, 8, 2, 5⟩ ∧
    e.span.Exact "x;\nlet 1".toList := by
  have haccepted : (match ofSource "(a) + f(1, [\"ü\"]);" with
      | .ok p => p.size == 1
      | .error _ => false) = true := by
    decide +kernel
  have hrejected : (match ofSource "x;\nlet 1" with
      | .error (.parse e) => decide (e.span = ⟨7, 8, 2, 5⟩)
      | _ => false) = true := by
    decide +kernel
  split at haccepted
  · rename_i p hp
    split at hrejected
    · rename_i e he
      obtain ⟨hall, -⟩ := (spans_exact _).1 hp
      exact ⟨p, e, hp, eq_of_beq haccepted, fun s hs => (hall s hs).1, he,
        of_decide_eq_true hrejected, ((spans_exact _).2 he).1⟩
    · contradiction
  · contradiction

end Program

end ModuleLoader.Script
