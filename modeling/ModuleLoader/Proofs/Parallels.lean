import ModuleLoader.Proofs.Echoes
import ModuleLoader.Proofs.Statements

/-! The readings of the grammar side by side. Off tokens that go together they read trees that are
alike up to places, or are refused alike, given that the readings one level of nesting further in
do. -/
namespace ModuleLoader.Script

open Reading

/-- The readings one level of nesting further in read alike off tokens that go together. -/
structure Nested.Echoes (C : Coupling) (n n' : Nested) : Prop where
  sound : n.Sound
  expression : ∀ {ts us}, C.inside ts us →
    n.expression.Echoes C n'.expression ts us C.agreeExpr
  operand : ∀ {ts us}, C.inside ts us → n.operand.Echoes C n'.operand ts us C.agreeExpr
  statement : ∀ l {ts us}, C.inside ts us →
    (n.statement l).Echoes C (n'.statement l) ts us C.agreeBehind

/-- What is read takes at least one token, so it leaves fewer. -/
theorem leaves_of_reads {c : Category} {x : Reading c.Tree} (h : x.Reads (Derives c))
    (hc : c.solid) (ts : Tokens) : x.Leaves ts fun _ rest => rest.length < ts.length := by
  intro a rest hx
  obtain ⟨used, rfl, -, hderives⟩ := h ts a rest hx
  have hne : used.length ≠ 0 := fun h => hderives.ne_nil hc (List.length_eq_zero_iff.mp h)
  rw [List.length_append]
  omega

theorem refuses_of_finish {c : Category} {x : Reading c.Tree} (h : x.Reads (Derives c))
    (hc : c.solid) {ts : Tokens} (hts : ts.current = .finish) : x.Refuses ts := by
  intro a rest hx
  obtain ⟨used, rfl, hused, hderives⟩ := h ts a rest hx
  cases used with
  | nil => exact hderives.ne_nil hc rfl
  | cons t used =>
    have ht := hused t List.mem_cons_self
    rw [show t.value = .finish from hts] at ht
    cases ht

abbrev Coupling.agreeProperty (C : Coupling) (p q : String × Expr) : Tokens → Tokens → Prop :=
  C.agree (fun p => (p.1, p.2.mapSpan C.place)) p q

namespace Coupling

theorem map_fst (C : Coupling) (b : Option (List Stmt × Span)) :
    (b.map Prod.fst).map (List.map (Stmt.mapSpan C.place)) = (b.map C.clause).map Prod.fst := by
  cases b <;> rfl

/-- The place where a guarded statement ends is that of its last clause. -/
theorem place_stop (C : Coupling) (finalizer handler : Option (List Stmt × Span)) (span : Span) :
    C.place (((finalizer.map Prod.snd).or (handler.map Prod.snd)).getD span) =
      (((finalizer.map C.clause).map Prod.snd).or ((handler.map C.clause).map Prod.snd)).getD
        (C.place span) := by
  cases finalizer <;> cases handler <;> rfl

end Coupling

namespace Nested.Echoes

variable {C : Coupling} {n n' : Nested} {ts us : Tokens}

theorem block (hn : n.Echoes C n') (l : Bool) (h : C.inside ts us) :
    (block (n.statement l)).Echoes C (block (n'.statement l)) ts us (C.agree C.clause) :=
  echoes_block (hn.statement l) (leaves_of_reads (c := .statement l) (hn.sound.statement l) rfl) h

theorem functionRest (hn : n.Echoes C n') (name : Option String) {start start' : Span}
    (hstart : C.place start = C.place start') (h : C.inside ts us) :
    (functionRest n name start).Echoes C (functionRest n' name start') ts us
      (C.agree (FunctionDef.mapSpan C.place)) := by
  have hparam {ts us : Tokens} (h : C.inside ts us) :
      (Prod.fst <$> identifier).Echoes C (Prod.fst <$> identifier) ts us (C.agree id) := by
    rw [map_eq_pure_bind]
    exact .identifier h fun _ _ _ _ _ _ h _ => .pure ⟨rfl, h⟩
  unfold Script.functionRest
  refine .expect h fun _ _ ts us _ h _ => ?_
  refine (echoes_listUntil id hparam (by decide) h).bind ?_
  rintro ⟨params, s⟩ ⟨params', s'⟩ ts us - ⟨hparams, -, h⟩
  rw [List.map_id, List.map_id] at hparams
  refine (hn.block false h).bind ?_
  rintro ⟨body, stop⟩ ⟨body', stop'⟩ ts us - ⟨hblock, h⟩
  obtain ⟨hbody, hstop⟩ := Prod.mk.inj hblock
  refine .pure ⟨?_, h⟩
  dsimp only at hparams hbody hstop
  rw [FunctionDef.mapSpan, FunctionDef.mapSpan, hparams, hbody, C.place_merge hstart hstop]

theorem functionExpression (hn : n.Echoes C n') (h : C.inside ts us)
    (hc : ts.current = .keyword .function) :
    (functionExpression n).Echoes C (functionExpression n') ts us
      (C.agree (FunctionDef.mapSpan C.place)) := by
  unfold Script.functionExpression
  refine .advance h hc rfl fun start start' ts us hstart h _ => ?_
  apply Reading.Echoes.current h
  split
  · rename_i name hc
    exact .advance h hc rfl fun _ _ ts us _ h _ => hn.functionRest (some name) hstart h
  · exact hn.functionRest none hstart h

theorem functionDeclaration (hn : n.Echoes C n') (h : C.inside ts us)
    (hc : ts.current = .keyword .function) :
    (functionDeclaration n).Echoes C (functionDeclaration n') ts us
      (C.agree (FunctionDef.mapSpan C.place)) := by
  unfold Script.functionDeclaration
  refine .advance h hc rfl fun start start' ts us hstart h _ => ?_
  exact .identifier h fun name _ _ ts us _ h _ => hn.functionRest (some name) hstart h

/-! ### Expressions -/

theorem propertyValue (hn : n.Echoes C n') {key : String} (h : C.inside ts us)
    (hkey : ts.current.key? = some key) :
    (propertyValue n key).Echoes C (propertyValue n' key) ts us C.agreeProperty := by
  unfold Script.propertyValue
  refine .advance_of_some h hkey rfl rfl fun _ _ ts us _ h _ => ?_
  refine .expect h fun _ _ ts us _ h _ => ?_
  refine (hn.expression h).bind fun e e' ts us _ he => ?_
  exact .pure ⟨congrArg (Prod.mk key) he.1, he.2⟩

theorem property (hn : n.Echoes C n') (h : C.inside ts us) :
    (property n).Echoes C (property n') ts us C.agreeProperty := by
  unfold Script.property
  refine .here h fun span span' hspan => .current h ?_
  split
  · rename_i hc
    exact hn.propertyValue h (by rw [hc]; rfl)
  · rename_i hc
    exact hn.propertyValue h (by rw [hc]; rfl)
  · rename_i hc
    exact hn.propertyValue h (by rw [hc]; rfl)
  · rename_i name hc
    refine .advance h hc rfl fun _ _ ts us _ h _ => ?_
    refine .isAt h (.isAt h ?_)
    split
    · have he : (Expr.identifier name span).mapSpan C.place =
          (Expr.identifier name span').mapSpan C.place := by
        rw [Expr.mapSpan, Expr.mapSpan, hspan]
      exact .pure ⟨congrArg (Prod.mk name) he, h⟩
    · refine .expect h fun _ _ ts us _ h _ => ?_
      refine (hn.expression h).bind fun e e' ts us _ he => ?_
      exact .pure ⟨congrArg (Prod.mk name) he.1, he.2⟩
  · exact .fail h

/-- A token that is an expression of its own. -/
theorem leaf {make : Span → Expr} (hmake : ∀ s, (make s).mapSpan C.place = make (C.place s))
    {t : Token} (h : C.inside ts us) (hc : ts.current = t) (ht : t.isFinish = false)
    (hmark : t.isSymbol .semicolon = false) :
    (do return make (← advance) : Reading Expr).Echoes C (do return make (← advance)) ts us
      C.agreeExpr := by
  refine .advance h hc ht fun s s' ts us hs h _ => .pure ⟨?_, C.inside_of_after h hmark⟩
  rw [hmake, hmake, hs]

theorem primary (hn : n.Echoes C n') (h : C.inside ts us) :
    (primary n).Echoes C (primary n') ts us C.agreeExpr := by
  unfold Script.primary
  refine .here h fun span span' hspan => .current h ?_
  split
  · rename_i x hc
    exact leaf (fun _ => by rw [Expr.mapSpan]) h hc rfl rfl
  · rename_i text hc
    exact leaf (fun _ => by rw [Expr.mapSpan]) h hc rfl rfl
  · rename_i hc
    exact leaf (fun _ => by rw [Expr.mapSpan]) h hc rfl rfl
  · rename_i hc
    exact leaf (fun _ => by rw [Expr.mapSpan]) h hc rfl rfl
  · rename_i hc
    exact leaf (fun _ => by rw [Expr.mapSpan]) h hc rfl rfl
  · rename_i hc
    exact leaf (fun _ => by rw [Expr.mapSpan]) h hc rfl rfl
  · rename_i name hc
    exact leaf (fun _ => by rw [Expr.mapSpan]) h hc rfl rfl
  · rename_i hc
    refine .advance h hc rfl fun _ _ ts us _ h _ => ?_
    refine (hn.expression h).bind fun e e' ts us _ he => ?_
    exact .expect he.2 fun _ _ ts us _ h _ => .pure ⟨he.1, h⟩
  · rename_i hc
    refine .advance h hc rfl fun _ _ ts us _ h _ => ?_
    refine (echoes_listUntil _ hn.expression (by decide) h).bind ?_
    rintro ⟨items, stop⟩ ⟨items', stop'⟩ ts us - ⟨hitems, hstop, h⟩
    refine .pure ⟨?_, h⟩
    rw [Expr.mapSpan, Expr.mapSpan, C.place_merge hspan hstop]
    exact congrArg (Expr.array · _) hitems
  · rename_i hc
    refine .advance h hc rfl fun _ _ ts us _ h _ => ?_
    refine (echoes_listUntil _ hn.property (by decide) h).bind ?_
    rintro ⟨properties, stop⟩ ⟨properties', stop'⟩ ts us - ⟨hproperties, hstop, h⟩
    refine .pure ⟨?_, h⟩
    rw [Expr.mapSpan, Expr.mapSpan, C.place_merge hspan hstop]
    exact congrArg (Expr.object · _) hproperties
  · rename_i hc
    refine (hn.functionExpression h hc).bind fun f f' ts us _ hf => .pure ⟨?_, hf.2⟩
    rw [Expr.mapSpan, Expr.mapSpan, hf.1]
  · exact .fail h
  · exact .fail h

theorem memberName (h : C.inside ts us) :
    memberName.Echoes C memberName ts us fun r r' rest rest' =>
      r.1 = r'.1 ∧ C.place r.2 = C.place r'.2 ∧ C.inside rest rest' := by
  unfold Script.memberName
  apply Reading.Echoes.current h
  split
  · rename_i name hname
    exact .advance_of_some h hname rfl rfl fun s s' ts us hs h _ => .pure ⟨rfl, hs, h⟩
  · exact .fail h

/-- Each turn consumes the symbol that opens a suffix. -/
theorem suffixes (hn : n.Echoes C n') (fuel : Nat) : ∀ {e e' ts us}, C.agreeExpr e e' ts us →
    ts.length ≤ fuel → (suffixes n fuel e).Echoes C (suffixes n' (fuel + C.more) e') ts us
      C.agreeExpr := by
  induction fuel with
  | zero =>
    intro e e' ts us h hfuel
    rw [C.more_eq_zero_of_length (C.behind_of_inside h.2) hfuel]
    exact .pure h
  | succ fuel ih =>
    rintro e e' ts us ⟨he, h⟩ hfuel
    have hspan := Expr.place_eq he
    rw [Nat.add_right_comm]
    unfold Script.suffixes
    apply Reading.Echoes.current h
    split
    · rename_i hc
      refine .advance h hc rfl fun _ _ ts us _ h _ => (memberName h).bind ?_
      rintro ⟨name, stop⟩ ⟨name', stop'⟩ ts us hle ⟨hname, hstop, h⟩
      refine ih ⟨?_, h⟩ (by omega)
      dsimp only at hname
      rw [Expr.mapSpan, Expr.mapSpan, he, hname, C.place_merge hspan hstop]
    · rename_i hc
      refine .advance h hc rfl fun _ _ ts us _ h _ => ?_
      refine (hn.expression h).bind fun i i' ts us _ hi => ?_
      refine .expect hi.2 fun stop stop' ts us hstop h _ => ih ⟨?_, h⟩ (by omega)
      rw [Expr.mapSpan, Expr.mapSpan, he, hi.1, C.place_merge hspan hstop]
    · rename_i hc
      refine .advance h hc rfl fun _ _ ts us _ h _ => ?_
      refine (echoes_listUntil _ hn.expression (by decide) h).bind ?_
      rintro ⟨args, stop⟩ ⟨args', stop'⟩ ts us hle ⟨hargs, hstop, h⟩
      refine ih ⟨?_, h⟩ (by omega)
      rw [Expr.mapSpan, Expr.mapSpan, he, C.place_merge hspan hstop]
      exact congrArg (Expr.call _ · _) hargs
    · exact .pure ⟨he, h⟩

theorem callMember (hn : n.Echoes C n') (h : C.inside ts us) :
    (callMember n).Echoes C (callMember n') ts us C.agreeExpr := by
  unfold Script.callMember
  refine (hn.primary h).bind fun e e' ts us _ he => ?_
  apply Reading.Echoes.current he.2
  split
  · apply Reading.Echoes.get
    rw [C.length_eq (C.behind_of_inside he.2)]
    exact hn.suffixes _ he (Nat.le_refl _)
  · exact .pure he

theorem updateOf (step : Step) (side : Side) {e e' : Expr} {start start' : Span}
    (he : C.agreeExpr e e' ts us) (hstart : C.place start = C.place start') :
    (updateOf step side e start).Echoes C (updateOf step side e' start') ts us C.agreeExpr := by
  have hspan := Expr.place_eq he.1
  unfold Script.updateOf
  rw [Expr.isTarget_eq he.1]
  split
  · refine .pure ⟨?_, he.2⟩
    rw [Expr.mapSpan, Expr.mapSpan, he.1, C.place_merge hstart hspan]
  · exact .failAt hspan

theorem postfixed (hn : n.Echoes C n') (h : C.inside ts us) :
    (postfixed n).Echoes C (postfixed n') ts us C.agreeExpr := by
  unfold Script.postfixed
  refine (hn.callMember h).bind fun e e' ts us _ he => ?_
  apply Reading.Echoes.current he.2
  split
  · rename_i step hstep
    refine .advance_of_some he.2 hstep rfl rfl fun stop stop' ts us hstop h _ => ?_
    exact updateOf step .after ⟨he.1, h⟩ (C.place_merge (Expr.place_eq he.1) hstop)
  · exact .pure he

theorem unary (hn : n.Echoes C n') (h : C.inside ts us) :
    (unary n).Echoes C (unary n') ts us C.agreeExpr := by
  unfold Script.unary
  apply Reading.Echoes.current h
  split
  · rename_i op hop
    refine .advance_of_some h hop rfl rfl fun start start' ts us hstart h _ => ?_
    refine (hn.operand h).bind fun e e' ts us _ he => .pure ⟨?_, he.2⟩
    rw [Expr.mapSpan, Expr.mapSpan, he.1, C.place_merge hstart (Expr.place_eq he.1)]
  · rename_i step _ hstep
    refine .advance_of_some h hstep rfl rfl fun start start' ts us hstart h _ => ?_
    exact (hn.operand h).bind fun e e' ts us _ he => updateOf step .before he hstart
  · exact hn.postfixed h

theorem join (op : BinaryOp) {a a' b b' : Expr} (ha : a.mapSpan C.place = a'.mapSpan C.place)
    (hb : b.mapSpan C.place = b'.mapSpan C.place) :
    (Expr.join op a b).mapSpan C.place = (Expr.join op a' b').mapSpan C.place := by
  unfold Expr.join
  rw [Expr.mapSpan, Expr.mapSpan, ha, hb, C.place_merge (Expr.place_eq ha) (Expr.place_eq hb)]

theorem joinLogical (op : LogicalOp) {a a' b b' : Expr}
    (ha : a.mapSpan C.place = a'.mapSpan C.place) (hb : b.mapSpan C.place = b'.mapSpan C.place) :
    (Expr.joinLogical op a b).mapSpan C.place = (Expr.joinLogical op a' b').mapSpan C.place := by
  unfold Expr.joinLogical
  rw [Expr.mapSpan, Expr.mapSpan, ha, hb, C.place_merge (Expr.place_eq ha) (Expr.place_eq hb)]

theorem multiplicative (hn : n.Echoes C n') (h : C.inside ts us) :
    (multiplicative n).Echoes C (multiplicative n') ts us C.agreeExpr :=
  echoes_leftAssociative rfl rfl hn.unary join h

theorem additive (hn : n.Echoes C n') (h : C.inside ts us) :
    (additive n).Echoes C (additive n') ts us C.agreeExpr :=
  echoes_leftAssociative rfl rfl hn.multiplicative join h

theorem relational (hn : n.Echoes C n') (h : C.inside ts us) :
    (relational n).Echoes C (relational n') ts us C.agreeExpr :=
  echoes_leftAssociative rfl rfl hn.additive join h

theorem equality (hn : n.Echoes C n') (h : C.inside ts us) :
    (equality n).Echoes C (equality n') ts us C.agreeExpr :=
  echoes_leftAssociative rfl rfl hn.relational join h

theorem conjunction (hn : n.Echoes C n') (h : C.inside ts us) :
    (conjunction n).Echoes C (conjunction n') ts us C.agreeExpr :=
  echoes_leftAssociative rfl rfl hn.equality joinLogical h

theorem disjunction (hn : n.Echoes C n') (h : C.inside ts us) :
    (disjunction n).Echoes C (disjunction n') ts us C.agreeExpr :=
  echoes_leftAssociative rfl rfl hn.conjunction joinLogical h

theorem conditional (hn : n.Echoes C n') (h : C.inside ts us) :
    (conditional n).Echoes C (conditional n') ts us C.agreeExpr := by
  unfold Script.conditional
  refine (hn.disjunction h).bind fun e e' ts us _ he => ?_
  apply Reading.Echoes.skip he.2
  · intro ts us h _
    refine (hn.expression h).bind fun a a' ts us _ ha => ?_
    refine .expect ha.2 fun _ _ ts us _ h _ => ?_
    refine (hn.expression h).bind fun b b' ts us _ hb => .pure ⟨?_, hb.2⟩
    rw [Expr.mapSpan, Expr.mapSpan, he.1, ha.1, hb.1,
      C.place_merge (Expr.place_eq he.1) (Expr.place_eq hb.1)]
  · exact .pure he

theorem assignment (hn : n.Echoes C n') (h : C.inside ts us) :
    (assignment n).Echoes C (assignment n') ts us C.agreeExpr := by
  unfold Script.assignment
  refine (hn.conditional h).bind fun e e' ts us _ he => ?_
  apply Reading.Echoes.current he.2
  split
  · exact .pure he
  · rename_i op hop
    rw [Expr.isTarget_eq he.1]
    split
    · refine .advance_of_some he.2 hop rfl rfl fun _ _ ts us _ h _ => ?_
      refine (hn.expression h).bind fun a a' ts us _ ha => .pure ⟨?_, ha.2⟩
      rw [Expr.mapSpan, Expr.mapSpan, he.1, ha.1,
        C.place_merge (Expr.place_eq he.1) (Expr.place_eq ha.1)]
    · exact .failAt (Expr.place_eq he.1)

/-! ### Statements -/

theorem declarator (hn : n.Echoes C n') (kind : DeclarationWord) (h : C.inside ts us) :
    (declarator n kind).Echoes C (declarator n' kind) ts us fun r r' rest rest' =>
      (r.1.1, r.1.2.map (Expr.mapSpan C.place)) = (r'.1.1, r'.1.2.map (Expr.mapSpan C.place)) ∧
        C.place r.2 = C.place r'.2 ∧ C.inside rest rest' := by
  unfold Script.declarator
  refine .identifier h fun name span span' ts us hspan h _ => ?_
  apply Reading.Echoes.skip h
  · intro ts us h _
    refine (hn.expression h).bind fun e e' ts us _ he => ?_
    exact .pure ⟨congrArg (fun e => (name, some e)) he.1, Expr.place_eq he.1, he.2⟩
  · split
    · contradiction
    · split
      · exact .failAt hspan
      · exact .pure ⟨rfl, hspan, h⟩

/-- Each variable but the last has a comma behind it. -/
theorem declarators (hn : n.Echoes C n') (kind : DeclarationWord) (fuel : Nat) : ∀ {ts us},
    C.inside ts us → ts.length ≤ fuel →
      (declarators n kind fuel).Echoes C (declarators n' kind (fuel + C.more)) ts us
        fun r r' rest rest' =>
          (r.1.map fun d => (d.1, d.2.map (Expr.mapSpan C.place))) =
              (r'.1.map fun d => (d.1, d.2.map (Expr.mapSpan C.place))) ∧
            C.place r.2 = C.place r'.2 ∧ C.inside rest rest' := by
  induction fuel with
  | zero =>
    intro ts us h hfuel
    rw [C.more_eq_zero_of_length (C.behind_of_inside h) hfuel]
    exact .fail h
  | succ fuel ih =>
    intro ts us h hfuel
    rw [Nat.add_right_comm]
    unfold Script.declarators
    refine (hn.declarator kind h).bind ?_
    rintro ⟨d, stop⟩ ⟨d', stop'⟩ ts us hle ⟨hd, hstop, h⟩
    apply Reading.Echoes.skip h
    · intro ts us h hlt
      refine (ih h (by omega)).bind ?_
      rintro ⟨ds, stop⟩ ⟨ds', stop'⟩ ts us - ⟨hds, hstop, h⟩
      exact .pure ⟨congrArg₂ List.cons hd hds, hstop, h⟩
    · exact .pure ⟨congrArg (fun d => [d]) hd, hstop, h⟩

theorem declaration (hn : n.Echoes C n') (kind : DeclarationWord) (h : C.inside ts us)
    (hkind : declarationWord? ts.current = some kind) :
    (declaration n kind).Echoes C (declaration n' kind) ts us C.agreeStmt := by
  unfold Script.declaration
  refine .advance_of_some h hkind rfl rfl fun start start' ts us hstart h _ => .get ?_
  rw [C.length_eq (C.behind_of_inside h)]
  refine (hn.declarators kind _ h (Nat.le_refl _)).bind ?_
  rintro ⟨ds, stop⟩ ⟨ds', stop'⟩ ts us - ⟨hds, hstop, h⟩
  refine .pure ⟨?_, h⟩
  rw [Stmt.mapSpan_declaration, Stmt.mapSpan_declaration, C.place_merge hstart hstop]
  exact congrArg (Stmt.declaration kind · _) hds

theorem ended {s s' : Reading Stmt} (h : s.Echoes C s' ts us C.agreeStmt) :
    (ended s).Echoes C (ended s') ts us C.agreeBehind := by
  unfold Script.ended
  refine h.bind fun s s' ts us _ hs => ?_
  exact .skip hs.2 (fun ts us h _ => .pure ⟨hs.1, h⟩) (.pure ⟨hs.1, C.behind_of_inside hs.2⟩)

theorem parenthesized (hn : n.Echoes C n') (h : C.inside ts us) :
    (parenthesized n).Echoes C (parenthesized n') ts us C.agreeExpr := by
  unfold Script.parenthesized
  refine .expect h fun _ _ ts us _ h _ => ?_
  refine (hn.expression h).bind fun e e' ts us _ he => ?_
  exact .expect he.2 fun _ _ ts us _ h _ => .pure ⟨he.1, h⟩

theorem ifStatement (hn : n.Echoes C n') (l : Bool) (h : C.inside ts us)
    (hc : ts.current = .keyword .«if») :
    (ifStatement n l).Echoes C (ifStatement n' l) ts us C.agreeBehind := by
  unfold Script.ifStatement
  refine .advance h hc rfl fun start start' ts us hstart h _ => ?_
  refine (hn.parenthesized h).bind fun e e' ts us _ he => ?_
  refine (hn.statement l he.2).bind fun s s' ts us _ hs => ?_
  -- The tokens of the first may have ended with the consequent.
  apply Reading.Echoes.skipElse hs.2
  · intro ts us h _
    refine (hn.statement l h).bind fun a a' ts us _ ha => .pure ⟨?_, ha.2⟩
    rw [Stmt.mapSpan_if, Stmt.mapSpan_if, he.1, hs.1, Option.map_some, Option.map_some, ha.1,
      C.place_merge hstart (Stmt.place_eq ha.1)]
  · refine .pure ⟨?_, hs.2⟩
    rw [Stmt.mapSpan_if, Stmt.mapSpan_if, he.1, hs.1, C.place_merge hstart (Stmt.place_eq hs.1)]

theorem whileStatement (hn : n.Echoes C n') (h : C.inside ts us)
    (hc : ts.current = .keyword .«while») :
    (whileStatement n).Echoes C (whileStatement n') ts us C.agreeBehind := by
  unfold Script.whileStatement
  refine .advance h hc rfl fun start start' ts us hstart h _ => ?_
  refine (hn.parenthesized h).bind fun e e' ts us _ he => ?_
  refine (hn.statement true he.2).bind fun s s' ts us _ hs => .pure ⟨?_, hs.2⟩
  rw [Stmt.mapSpan, Stmt.mapSpan, he.1, hs.1, C.place_merge hstart (Stmt.place_eq hs.1)]

theorem expressionStatement (hn : n.Echoes C n') (h : C.inside ts us) :
    (Stmt.expression <$> n.expression).Echoes C (Stmt.expression <$> n'.expression) ts us
      C.agreeStmt := by
  refine .map ((hn.expression h).imp fun e e' ts us he => ⟨?_, he.2⟩)
  rw [Stmt.mapSpan, Stmt.mapSpan, he.1]

theorem forInit (hn : n.Echoes C n') (h : C.inside ts us) :
    (forInit n).Echoes C (forInit n') ts us (C.agree (Option.map (Stmt.mapSpan C.place))) := by
  unfold Script.forInit
  apply Reading.Echoes.current h
  split
  · rename_i kind hkind
    refine .map ((hn.declaration kind h hkind).imp fun s s' ts us hs => ⟨?_, hs.2⟩)
    exact congrArg some hs.1
  · split
    · exact .pure ⟨rfl, h⟩
    · refine (hn.expression h).bind fun e e' ts us _ he => .pure ⟨?_, he.2⟩
      rw [Option.map_some, Option.map_some, Stmt.mapSpan, Stmt.mapSpan, he.1]

/-- Where the tokens of the first have come to their end, its expression is missing. -/
theorem expressionUnless (hn : n.Echoes C n') (mark : Symbol) (h : C.behind ts us) :
    (expressionUnless n mark).Echoes C (expressionUnless n' mark) ts us
      (C.agree (Option.map (Expr.mapSpan C.place))) := by
  unfold Script.expressionUnless
  apply Reading.Echoes.of_behind h
  · intro hc
    apply Leaves.isAt
    rw [hc]
    exact (refuses_of_finish (c := .expression .assignment) hn.sound.expression rfl hc).bind
  · intro h
    apply Reading.Echoes.isAt h
    split
    · exact .pure ⟨rfl, h⟩
    · refine (hn.expression h).bind fun e e' ts us _ he => .pure ⟨?_, he.2⟩
      exact congrArg some he.1

theorem forStatement (hn : n.Echoes C n') (h : C.inside ts us)
    (hc : ts.current = .keyword .«for») :
    (forStatement n).Echoes C (forStatement n') ts us C.agreeBehind := by
  unfold Script.forStatement
  refine .advance h hc rfl fun start start' ts us hstart h _ => ?_
  refine .expect h fun _ _ ts us _ h _ => ?_
  refine (hn.forInit h).bind fun init init' ts us _ hinit => ?_
  -- Behind each semicolon of the head the tokens of the first may have ended.
  refine .expect hinit.2 fun _ _ ts us _ h _ => ?_
  refine (hn.expressionUnless .semicolon h).bind fun e e' ts us _ he => ?_
  refine .expect he.2 fun _ _ ts us _ h _ => ?_
  refine (hn.expressionUnless .rightParen h).bind fun a a' ts us _ ha => ?_
  refine .expect ha.2 fun _ _ ts us _ h _ => ?_
  refine (hn.statement true h).bind fun s s' ts us _ hs => .pure ⟨?_, hs.2⟩
  rw [Stmt.mapSpan_for, Stmt.mapSpan_for, hinit.1, he.1, ha.1, hs.1,
    C.place_merge hstart (Stmt.place_eq hs.1)]

theorem catchParam (h : C.inside ts us) :
    catchParam.Echoes C catchParam ts us (C.agree id) := by
  unfold Script.catchParam
  apply Reading.Echoes.skip h
  · intro ts us h _
    refine .identifier h fun name _ _ ts us _ h _ => ?_
    exact .expect h fun _ _ ts us _ h _ => .pure ⟨rfl, h⟩
  · exact .pure ⟨rfl, h⟩

theorem catchClause (hn : n.Echoes C n') (l : Bool) (h : C.inside ts us) :
    (catchClause n l).Echoes C (catchClause n' l) ts us
      (C.agree fun r => (r.1, r.2.map C.clause)) := by
  unfold Script.catchClause
  apply Reading.Echoes.skipWord h
  · intro ts us h _
    refine (catchParam h).bind fun param param' ts us _ hparam => ?_
    refine (hn.block l hparam.2).bind fun b b' ts us _ hb => .pure ⟨?_, hb.2⟩
    exact Prod.ext hparam.1 (congrArg some hb.1)
  · exact .pure ⟨rfl, h⟩

theorem finallyClause (hn : n.Echoes C n') (l : Bool) (h : C.inside ts us) :
    (finallyClause n l).Echoes C (finallyClause n' l) ts us (C.agree (Option.map C.clause)) := by
  unfold Script.finallyClause
  apply Reading.Echoes.skipWord h
  · intro ts us h _
    exact (hn.block l h).bind fun b b' ts us _ hb => .pure ⟨congrArg some hb.1, hb.2⟩
  · exact .pure ⟨rfl, h⟩

theorem tryStatement (hn : n.Echoes C n') (l : Bool) (h : C.inside ts us)
    (hc : ts.current = .keyword .«try») :
    (tryStatement n l).Echoes C (tryStatement n' l) ts us C.agreeBehind := by
  unfold Script.tryStatement
  refine .advance h hc rfl fun start start' ts us hstart h _ => ?_
  refine (hn.block l h).bind ?_
  rintro ⟨body, span⟩ ⟨body', span'⟩ ts us - ⟨hblock, h⟩
  obtain ⟨hbody, hspan⟩ := Prod.mk.inj hblock
  refine (hn.catchClause l h).bind ?_
  rintro ⟨param, handler⟩ ⟨param', handler'⟩ ts us - ⟨hcatch, h⟩
  obtain ⟨hparam, hhandler⟩ := Prod.mk.inj hcatch
  refine (hn.finallyClause l h).bind ?_
  rintro finalizer finalizer' ts us - ⟨hfinalizer, h⟩
  dsimp only at hbody hspan hparam hhandler hfinalizer ⊢
  have hnone : handler = none ↔ handler' = none := by
    rw [← Option.map_eq_none_iff (f := C.clause), hhandler, Option.map_eq_none_iff]
  have hnone' : finalizer = none ↔ finalizer' = none := by
    rw [← Option.map_eq_none_iff (f := C.clause), hfinalizer, Option.map_eq_none_iff]
  split
  · rw [hnone.mp rfl, hnone'.mp rfl]
    exact .fail h
  · rename_i hsome
    split
    · exact (hsome (hnone.mpr rfl) (hnone'.mpr rfl)).elim
    · refine .pure ⟨?_, C.behind_of_inside h⟩
      rw [Stmt.mapSpan_try, Stmt.mapSpan_try, hbody, hparam, C.map_fst, C.map_fst, C.map_fst,
        C.map_fst, hhandler, hfinalizer]
      congr 1
      refine C.place_merge hstart ?_
      rw [C.place_stop, C.place_stop, hhandler, hfinalizer, hspan]

theorem returnStatement (hn : n.Echoes C n') (h : C.inside ts us)
    (hc : ts.current = .keyword .«return») :
    (returnStatement n).Echoes C (returnStatement n') ts us C.agreeStmt := by
  unfold Script.returnStatement
  refine .advance h hc rfl fun start start' ts us hstart h _ => ?_
  apply Reading.Echoes.current h
  split
  · refine (hn.expression h).bind fun e e' ts us _ he => .pure ⟨?_, he.2⟩
    rw [Stmt.mapSpan_return, Stmt.mapSpan_return, Option.map_some, Option.map_some, he.1,
      C.place_merge hstart (Expr.place_eq he.1)]
  · refine .pure ⟨?_, h⟩
    rw [Stmt.mapSpan_return, Stmt.mapSpan_return, hstart]

theorem throwStatement (hn : n.Echoes C n') (h : C.inside ts us)
    (hc : ts.current = .keyword .throw) :
    (throwStatement n).Echoes C (throwStatement n') ts us C.agreeStmt := by
  unfold Script.throwStatement
  refine .advance h hc rfl fun start start' ts us hstart h _ => ?_
  refine (hn.expression h).bind fun e e' ts us _ he => .pure ⟨?_, he.2⟩
  rw [Stmt.mapSpan, Stmt.mapSpan, he.1, C.place_merge hstart (Expr.place_eq he.1)]

theorem exitStatement (word : Keyword) {make : Span → Stmt}
    (hmake : ∀ s, (make s).mapSpan C.place = make (C.place s)) (l : Bool) (h : C.inside ts us)
    (hc : ts.current = .keyword word) :
    (exitStatement word make l).Echoes C (exitStatement word make l) ts us C.agreeStmt := by
  unfold Script.exitStatement
  split
  · refine .advance h hc rfl fun start start' ts us hstart h _ => .pure ⟨?_, h⟩
    rw [hmake, hmake, hstart]
  · exact .fail h

theorem anyStatement (hn : n.Echoes C n') (l : Bool) (h : C.inside ts us) :
    (anyStatement n l).Echoes C (anyStatement n' l) ts us C.agreeBehind := by
  unfold Script.anyStatement
  apply Reading.Echoes.current h
  split
  · rename_i hc
    exact ended (hn.declaration .«let» h (by rw [hc]; rfl))
  · rename_i hc
    exact ended (hn.declaration .«const» h (by rw [hc]; rfl))
  · rename_i hc
    exact ended (hn.declaration .«var» h (by rw [hc]; rfl))
  · rename_i hc
    refine (hn.functionDeclaration h hc).bind fun f f' ts us _ hf => ?_
    refine .pure ⟨?_, C.behind_of_inside hf.2⟩
    rw [Stmt.mapSpan, Stmt.mapSpan, hf.1]
  · rename_i hc
    exact hn.ifStatement l h hc
  · rename_i hc
    exact hn.whileStatement h hc
  · rename_i hc
    exact hn.forStatement h hc
  · rename_i hc
    exact hn.tryStatement l h hc
  · rename_i hc
    exact ended (hn.returnStatement h hc)
  · rename_i hc
    exact ended (hn.throwStatement h hc)
  · rename_i hc
    exact ended (exitStatement .«break» (fun _ => by rw [Stmt.mapSpan]) l h hc)
  · rename_i hc
    exact ended (exitStatement .«continue» (fun _ => by rw [Stmt.mapSpan]) l h hc)
  · exact .fail h
  · refine (hn.block l h).bind ?_
    rintro ⟨body, span⟩ ⟨body', span'⟩ ts us - ⟨hblock, h⟩
    obtain ⟨hbody, hspan⟩ := Prod.mk.inj hblock
    refine .pure ⟨?_, C.behind_of_inside h⟩
    rw [Stmt.mapSpan, Stmt.mapSpan]
    exact congrArg₂ Stmt.block hbody hspan
  · rename_i hc
    refine .advance h hc rfl fun s s' ts us hs h _ => .pure ⟨?_, h⟩
    rw [Stmt.mapSpan, Stmt.mapSpan, hs]
  · exact ended (hn.expressionStatement h)

end Nested.Echoes

section Levels

variable {C : Coupling} {α β : Type} {ts us : Tokens} {P : α → β → Tokens → Tokens → Prop}

theorem echoes_tooDeep (limit : Nat) (what : Construct) (h : C.inside ts us) :
    (tooDeep limit what : Reading α).Echoes C (tooDeep limit what : Reading β) ts us P :=
  .fail h

/-- With as many levels of nesting left under the same limit, the readings are the same. -/
theorem echoes_nestedAt (limit left : Nat) :
    (nestedAt limit left).Echoes C (nestedAt limit left) := by
  induction left with
  | zero =>
    exact ⟨sound_nestedAt limit 0, echoes_tooDeep limit .expression,
      echoes_tooDeep limit .unaryExpression, fun _ _ _ => echoes_tooDeep limit .statement⟩
  | succ left ih =>
    exact ⟨sound_nestedAt limit (left + 1), ih.assignment, ih.unary,
      fun l _ _ h => ih.anyStatement l h⟩

theorem echoes_of_tooDeep (limit : Nat) (what : Construct) {y : Reading β}
    (hC : ∀ e : ParseFault, e.value.kind = .limitExceeded → C.excused e) :
    (tooDeep limit what : Reading α).Echoes C y ts us P where
  ok a rest hx := by cases hx
  error e he hexcused := by
    cases he
    exact absurd (hC _ rfl) hexcused

/-- If it is excused to exceed the limit, the second readings may have more levels of nesting left,
and another limit. -/
theorem echoes_nestedAt_of_le
    (hC : ∀ e : ParseFault, e.value.kind = .limitExceeded → C.excused e) (limit limit' : Nat)
    {left left' : Nat} (hleft : left ≤ left') :
    (nestedAt limit left).Echoes C (nestedAt limit' left') := by
  induction left generalizing left' with
  | zero =>
    exact ⟨sound_nestedAt limit 0, fun _ => echoes_of_tooDeep limit .expression hC,
      fun _ => echoes_of_tooDeep limit .unaryExpression hC,
      fun _ _ _ _ => echoes_of_tooDeep limit .statement hC⟩
  | succ left ih =>
    obtain ⟨left', rfl⟩ := Nat.exists_eq_add_of_le' hleft
    have hn : (nestedAt limit left).Echoes C (nestedAt limit' (left' + left)) :=
      ih (Nat.le_add_left left left')
    exact ⟨sound_nestedAt limit (left + 1), hn.assignment, hn.unary,
      fun l _ _ h => hn.anyStatement l h⟩

end Levels

section Programs

variable {C : Coupling} {n n' : Nested} {ts us : Tokens}

theorem echoes_statementsUntilEnd (hC : ∀ {ts us}, C.behind ts us → C.inside ts us)
    (hn : n.Echoes C n') (fuel : Nat) : ∀ {ts us}, C.inside ts us → ts.length ≤ fuel →
      (statementsUntilEnd (n.statement false) fuel).Echoes C
        (statementsUntilEnd (n'.statement false) (fuel + C.more)) ts us
        (C.agree (List.map (Stmt.mapSpan C.place))) := by
  induction fuel with
  | zero =>
    intro ts us h hfuel
    rw [C.more_eq_zero_of_length (C.behind_of_inside h) hfuel]
    exact .pure ⟨rfl, h⟩
  | succ fuel ih =>
    intro ts us h hfuel
    rw [Nat.add_right_comm]
    unfold statementsUntilEnd
    apply Reading.Echoes.current h
    split
    · exact .pure ⟨rfl, h⟩
    · have hlt := leaves_of_reads (c := .statement false) (hn.sound.statement false) rfl ts
      refine ((hn.statement false h).and_leaves hlt).bind fun s s' rest rest' _ hs => ?_
      refine (ih (hC hs.1.2) (by omega)).bind fun body body' rest rest' _ hbody => ?_
      exact .pure ⟨congrArg₂ List.cons hs.1.1 hbody.1, hbody.2⟩

theorem echoes_programAt (hC : ∀ {ts us}, C.behind ts us → C.inside ts us) {limit limit' : Nat}
    (hn : (nestedAt limit limit).Echoes C (nestedAt limit' limit')) (h : C.inside ts us) :
    (programAt limit).Echoes C (programAt limit') ts us (C.agree (Program.mapSpan C.place)) := by
  unfold programAt
  refine .here h fun start start' hstart => .get ?_
  rw [C.length_eq (C.behind_of_inside h)]
  refine (echoes_statementsUntilEnd hC hn _ h (Nat.le_refl _)).bind ?_
  intro body body' ts us _ hbody
  refine .here hbody.2 fun stop stop' hstop => .pure ⟨?_, hbody.2⟩
  rw [Program.mapSpan, Program.mapSpan, hbody.1, C.place_merge hstart hstop]

/-- What is read off one token list is read off the other, up to places, and a fault of the one that
is not excused is a fault of the other. -/
theorem Program.ofTokens_echoes (hC : ∀ {ts us}, C.behind ts us → C.inside ts us)
    {limit limit' : Nat} (hn : (nestedAt limit limit).Echoes C (nestedAt limit' limit'))
    (h : C.inside ts us) :
    (∀ p, ofTokens limit ts = .ok p →
      ∃ q, ofTokens limit' us = .ok q ∧ p.mapSpan C.place = q.mapSpan C.place) ∧
    ∀ e, ofTokens limit ts = .error e → ¬ C.excused e → ∃ e', ofTokens limit' us = .error e' ∧
      e'.value = e.value ∧ C.place e'.span = C.place e.span := by
  obtain ⟨hok, herror⟩ := echoes_programAt hC hn h
  unfold ofTokens
  constructor
  · intro p hp
    cases hrun : (programAt limit).run ts with
    | error e => rw [hrun] at hp; cases hp
    | ok r =>
      rw [hrun] at hp
      cases hp
      obtain ⟨q, rest', hq, -, hagree⟩ := hok r.1 r.2 hrun
      exact ⟨q, by rw [hq]; rfl, hagree.1⟩
  · intro e he hexcused
    cases hrun : (programAt limit).run ts with
    | ok r => rw [hrun] at he; cases he
    | error e' =>
      rw [hrun] at he
      cases he
      obtain ⟨e', hq, hvalue, hplace⟩ := herror e hrun hexcused
      exact ⟨e', by rw [hq]; rfl, hvalue, hplace⟩

end Programs

end ModuleLoader.Script
