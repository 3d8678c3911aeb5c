import ModuleLoader.Proofs.Routes
import ModuleLoader.Proofs.Separators

/-! Every walk ends. What comes of it is what the readings make of the tokens, or their fault; it is
never lost, and each construct whose nesting is counted moves the cursor on. -/
namespace ModuleLoader.Script

open Walk

/-- The walk ends, and not because it is lost. Wherever it ends, the cursor has not gone back nor
left the tokens, and all that is counted is as it was. -/
def Walk.Ends {α : Type} (w : Walk α) (c : Cursor) : Prop :=
  ∃ result c', w.outcome c = some (result, c') ∧ result ≠ .error .lost ∧ c.Leads c'

theorem Walk.Accords.ends {α : Type} {w : Walk α} {x : Reading α} {c : Cursor}
    (h : w.Accords x c) : w.Ends c := by
  cases hx : x.run c.rest with
  | ok r =>
    obtain ⟨c', hw, hc', -⟩ := h.ok r.1 r.2 hx
    exact ⟨_, c', hw, by rintro ⟨⟩, hc'⟩
  | error e =>
    obtain ⟨c', hw, hc'⟩ := h.fault e hx
    exact ⟨_, c', hw, by rintro ⟨⟩, hc'⟩

namespace Rule

/-- A declaration is walked through from one of its words on, everything else from anywhere. -/
def Admits {α : Type} : Rule α → Token → Prop
  | .declaration, t => (declarationWord? t).isSome
  | _, _ => True

/-- The walk through each rule ends from each cursor, one way or the other. -/
theorem ends {α : Type} (r : Rule α) {c : Cursor} (hc : c.Within)
    (hadmits : r.Admits c.rest.current) : r.walk.Ends c := by
  have h := guides_nestedAt (maxNesting - c.depth) c.depth rfl
  have hstands : c.Stands c.depth c.loops := ⟨hc, rfl, rfl⟩
  have hfuel : c.rest.length ≤ c.rest.length := Nat.le_refl _
  cases r with
  | program => exact (h.program c hstands).ends
  | statements before =>
    exact (accords_statements (h.statement _) (h.shorter _) _ before hstands hfuel).ends
  | nested what =>
    cases what with
    | statement => exact (h.statement _ c hstands).ends
    | expression => exact (h.expression _ c hstands).ends
    | unaryExpression => exact (h.operand _ c hstands).ends
  | anyStatement => exact (h.anyStatement c hstands).ends
  | block => exact (h.block c hstands).ends
  | blockStatements before =>
    have hwalk : ((blockStatements before).walk >>= pure).Accords
        (statementsUntilBrace _ c.rest.length >>= fun body => pure (before ++ body)) c :=
      accords_blockStatements (h.statement _) (h.shorter _) _ before
        (fun _ _ hc' _ => .pure (hc'.within hc) _) hstands hfuel
    rw [bind_pure] at hwalk
    exact hwalk.ends
  | declaration =>
    obtain ⟨kind, hkind⟩ := Option.isSome_iff_exists.mp hadmits
    exact (h.declaration hstands hkind).ends
  | declarator kind => exact (h.declarator kind c hstands).ends
  | declarators kind before =>
    exact (accords_declarators (h.declarator kind) _ before hstands hfuel).ends
  | parenthesized => exact (h.parenthesized c hstands).ends
  | ifStatement => exact (h.ifStatement c hstands).ends
  | whileStatement => exact (h.whileStatement c hstands).ends
  | forStatement => exact (h.forStatement c hstands).ends
  | forInit => exact (h.forInit c hstands).ends
  | expressionUnless mark => exact (h.expressionUnless mark c hstands).ends
  | loopBody => exact (h.loopBody c hstands).ends
  | tryStatement => exact (h.tryStatement c hstands).ends
  | catchClause => exact (h.catchClause c hstands).ends
  | finallyClause => exact (h.finallyClause c hstands).ends
  | returnStatement => exact (h.returnStatement c hstands).ends
  | throwStatement => exact (h.throwStatement c hstands).ends
  | level l => exact (h.level l c hstands).ends
  | chain l before =>
    have hfinish : l.join? .finish = none := by cases l <;> rfl
    have hjoin (t : Token) : l.join? t = (l.join? t).map id := Option.map_id_apply.symm
    exact (accords_chain hjoin hfinish (h.level l.tighter) _ before hstands hfuel).ends
  | prefixUpdate step => exact (h.prefixUpdate step c hstands).ends
  | suffixes before => exact (accords_suffixes (h.expression _) _ before hstands hfuel).ends
  | item i =>
    obtain ⟨x, hx⟩ := h.item i
    exact (hx c hstands).ends
  | items i close before =>
    obtain ⟨x, hx⟩ := h.item i
    exact (accords_items hx close _ before hstands hfuel).ends
  | objectLiteral => exact (h.objectLiteral c hstands).ends
  | functionLiteral isDeclaration =>
    cases hword : c.rest.current.isKeyword .function with
    | false =>
      rw [Rule.walk]
      exact (Accords.expectWord_bind hc hword).ends
    | true =>
      cases isDeclaration with
      | false => exact (h.functionExpression hstands (Token.eq_keyword hword)).ends
      | true => exact (h.functionDeclaration hstands (Token.eq_keyword hword)).ends
  | functionRest name start => exact (h.functionRest name start c hstands).ends
  | functionBody => exact (h.functionBody c hstands).ends

/-- What takes at least one token off those that are left moves the cursor on. -/
theorem position_lt {what : Construct} {x : Reading what.Tree} {c c' : Cursor} {tree : what.Tree}
    (hx : x.Leaves c.rest fun _ rest => rest.length < c.rest.length)
    (h : (nested what).walk.Accords x c)
    (hwalk : (nested what).walk.outcome c = some (.ok tree, c')) : c.position < c'.position := by
  cases hread : x.run c.rest with
  | error e =>
    obtain ⟨c'', hw, -⟩ := h.fault e hread
    rw [hw] at hwalk
    cases hwalk
  | ok r =>
    obtain ⟨c'', hw, hleads, hrest⟩ := h.ok r.1 r.2 hread
    rw [hw] at hwalk
    obtain rfl : c'' = c' := (Prod.mk.inj (Option.some.inj hwalk)).2
    have hless := hx r.1 r.2 hread
    rw [← hrest, Cursor.length_rest, Cursor.length_rest, hleads.tokens] at hless
    omega

theorem position_lt_of_nested {what : Construct} {c c' : Cursor} {tree : what.Tree}
    (hc : c.Within) (hwalk : (nested what).walk.outcome c = some (.ok tree, c')) :
    c.position < c'.position := by
  have h := guides_nestedAt (maxNesting - c.depth) c.depth rfl
  have hstands : c.Stands c.depth c.loops := ⟨hc, rfl, rfl⟩
  cases what with
  | statement => exact position_lt (h.shorter _ _) (h.statement _ c hstands) hwalk
  | expression =>
    have hless := leaves_of_reads (c := .expression .assignment) h.sound.expression rfl c.rest
    exact position_lt hless (h.expression _ c hstands) hwalk
  | unaryExpression =>
    have hless := leaves_of_reads (c := .expression .unary) h.sound.operand rfl c.rest
    exact position_lt hless (h.operand _ c hstands) hwalk

/-- Off closed tokens the walk through a script makes the script that is read off them, or ends at
the same fault. -/
theorem outcome_program {ts : Tokens} (h : ts.Closed) : ∃ c',
    program.walk.outcome (.start ts) =
      some ((Program.ofTokens maxNesting ts).mapError .fault, c') ∧ (Cursor.start ts).Leads c' := by
  have hwalk : program.walk.Accords (programAt maxNesting) (.start ts) :=
    (guides_nestedAt maxNesting 0 rfl).program (k := 0) (.start ts)
      ⟨Cursor.within_start h, rfl, rfl⟩
  unfold Program.ofTokens
  cases hread : (programAt maxNesting).run ts with
  | ok r =>
    obtain ⟨c', hw, hc', -⟩ := hwalk.ok r.1 r.2 hread
    exact ⟨c', hw, hc'⟩
  | error e =>
    obtain ⟨c', hw, hc'⟩ := hwalk.fault e hread
    exact ⟨c', hw, hc'⟩

end Rule

/-! ### The tokens of a text -/

theorem isFinish_of_scanNumber {c : Char} {cs : List Char} {t : Token}
    (h : (scanNumber c cs).1 = .token t) : t.isFinish = false := by
  unfold scanNumber at h
  dsimp only at h
  split at h
  · split at h
    · split at h <;> cases h
      rfl
    · cases h
  · split at h <;> cases h
    rfl

theorem isFinish_of_scanString {quote : Char} {cs : List Char} {t : Token}
    (h : (scanString quote cs).1 = .token t) : t.isFinish = false := by
  unfold scanString at h
  dsimp only at h
  split at h
  · split at h <;> cases h
    rfl
  · cases h

/-- No text is scanned as the closing token. -/
theorem isFinish_of_scan {c : Char} {cs : List Char} {t : Token}
    (h : (scan c cs).1 = .token t) : t.isFinish = false := by
  unfold scan at h
  split at h
  · cases h
  split at h
  · cases h
  split at h
  · cases h
  split at h
  · obtain rfl := Lexeme.token.inj h
    unfold wordToken
    split <;> rfl
  split at h
  · exact isFinish_of_scanNumber h
  split at h
  · exact isFinish_of_scanString h
  split at h <;> cases h
  rfl

theorem isFinish_of_mem_pieces {p : Position} {cs : List Char} {t : Token} {span : Span}
    (h : ⟨.token t, span⟩ ∈ pieces p cs) : t.isFinish = false := by
  fun_induction pieces p cs with
  | case1 => cases h
  | case2 p c cs lexeme n hscan q ih =>
    obtain h | h := List.mem_cons.mp h
    · cases h
      exact isFinish_of_scan (congrArg Prod.fst hscan)
    · exact ih h

/-- The lexer closes the tokens of a text. -/
theorem closed_of_tokenize {source : String} {ts : Tokens} (h : tokenize source = .ok ts) :
    ts.Closed := by
  unfold tokenize at h
  dsimp only at h
  split at h
  · obtain rfl := Except.ok.inj h
    exact ⟨_, _, rfl, rfl, fun t ht => isFinish_of_mem_pieces (mem_tokensOf ht)⟩
  · cases h

theorem Program.walk?_eq (source : String) :
    Program.walk? source = some (Program.ofSource source) := by
  unfold Program.walk? Program.ofSource
  cases htokens : tokenize source with
  | error errors => rfl
  | ok ts =>
    obtain ⟨c', hwalk, -⟩ := Rule.outcome_program (closed_of_tokenize htokens)
    dsimp only
    rw [hwalk]
    cases Program.ofTokens maxNesting ts <;> rfl

/-- From every place in closed tokens the walk through every rule ends, though nothing bounds how
often rules go on through others: with a tree or at a fault, never behind the closing token nor at
one that it cannot be at, and with what is counted as it was. A statement or an expression moves the
cursor on. So the walk through a whole script ends, with the script that is read off its tokens or
at the same fault, and every source is a script or at fault. -/
theorem Rule.walks_end :
    (∀ {α : Type} (r : Rule α) (c : Cursor), c.Within → r.Admits c.rest.current →
      r.walk.Ends c) ∧
    (∀ (what : Construct) (c c' : Cursor) (tree : what.Tree), c.Within →
      (nested what).walk.outcome c = some (.ok tree, c') → c.position < c'.position) ∧
    (∀ ts : Tokens, ts.Closed → ∃ c', program.walk.outcome (.start ts) =
      some ((Program.ofTokens maxNesting ts).mapError .fault, c') ∧ (Cursor.start ts).Leads c') ∧
    ∀ source : String, Program.walk? source = some (Program.ofSource source) :=
  ⟨fun r _ hc hadmits => r.ends hc hadmits, fun _ _ _ _ hc hwalk => position_lt_of_nested hc hwalk,
    fun _ h => outcome_program h, Program.walk?_eq⟩

namespace Sample

/-- The tokens of a lone declaration. -/
def declared : Tokens :=
  [⟨.keyword .«let», ⟨0, 3, 1, 1⟩⟩, ⟨.identifier "x", ⟨4, 5, 1, 5⟩⟩, ⟨.finish, ⟨5, 5, 1, 6⟩⟩]

theorem closed_declared : declared.Closed :=
  ⟨declared.take 2, ⟨.finish, ⟨5, 5, 1, 6⟩⟩, rfl, rfl, by decide⟩

end Sample

theorem Rule.walks_end_sample :
    Sample.declared.Closed ∧ declaration.walk.Ends (.start Sample.declared) ∧
    (∃ tree c', (nested .statement).walk.outcome (.start Sample.declared) = some (.ok tree, c') ∧
      0 < c'.position) ∧
    (∃ p c', program.walk.outcome (.start Sample.declared) = some (.ok p, c') ∧
      p.statements.length = 1 ∧ c'.position < Sample.declared.length) ∧
    Program.walk? "let x" = some (Program.ofSource "let x") := by
  obtain ⟨hends, hmoves, hprogram, hsource⟩ := Rule.walks_end
  have hwithin := Cursor.within_start Sample.closed_declared
  refine ⟨Sample.closed_declared, hends declaration _ hwithin rfl, ?_, ?_, hsource "let x"⟩
  · have hstatement : (nested .statement).walk.Accords (statementAt maxNesting maxNesting false)
        (.start Sample.declared) :=
      (guides_nestedAt maxNesting 0 rfl).statement 0 _ ⟨hwithin, rfl, rfl⟩
    obtain ⟨c', hwalk, -⟩ := hstatement.ok _ _ rfl
    exact ⟨_, c', hwalk, hmoves .statement _ c' _ hwithin hwalk⟩
  · obtain ⟨c', hwalk, hleads⟩ := hprogram Sample.declared Sample.closed_declared
    refine ⟨_, c', hwalk, rfl, ?_⟩
    have hlt := hleads.lt
    rwa [hleads.tokens] at hlt

end ModuleLoader.Script
