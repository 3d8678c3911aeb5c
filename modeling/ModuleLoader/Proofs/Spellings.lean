import ModuleLoader.Proofs.Nodes
import ModuleLoader.Proofs.Readings

/-! The shortest spelling of a tree. Parentheses stand around an operand that is looser than its
operator allows, and around an object or a function that an expression statement would begin with;
simple statements end in a semicolon. A spelling comes with the levels of nesting that reading it
takes. -/
namespace ModuleLoader.Script

/-- Some tokens, and how deep the trees that are read off them nest. -/
structure Spelling where
  tokens : List Token
  nesting : Nat

namespace Spelling

def of (tokens : List Token) : Spelling :=
  ⟨tokens, 0⟩

def mark (m : Symbol) : Spelling :=
  of [.symbol m]

def word (w : Keyword) : Spelling :=
  of [.keyword w]

instance : Append Spelling :=
  ⟨fun s s' => ⟨s.tokens ++ s'.tokens, max s.nesting s'.nesting⟩⟩

/-- The same tokens, read one level further in. -/
def nested (s : Spelling) : Spelling :=
  ⟨s.tokens, s.nesting + 1⟩

def grouped (s : Spelling) : Spelling :=
  mark .leftParen ++ s.nested ++ mark .rightParen

def joined : List Spelling → Spelling
  | [] => of []
  | s :: rest => s ++ joined rest

def commas : List Spelling → Spelling
  | [] => of []
  | [s] => s
  | s :: rest => s ++ mark .comma ++ commas rest

def block (statements : List Spelling) : Spelling :=
  mark .leftBrace ++ joined (statements.map nested) ++ mark .rightBrace

def semicolonIf (ended : Bool) : Spelling :=
  if ended then mark .semicolon else of []

section Tokens

variable (s s' : Spelling) (spellings : List Spelling)

@[simp] theorem tokens_of (ts : List Token) : (of ts).tokens = ts := rfl

@[simp] theorem tokens_mark (m : Symbol) : (mark m).tokens = [.symbol m] := rfl

@[simp] theorem tokens_word (w : Keyword) : (word w).tokens = [.keyword w] := rfl

@[simp] theorem tokens_append : (s ++ s').tokens = s.tokens ++ s'.tokens := rfl

@[simp] theorem tokens_nested : s.nested.tokens = s.tokens := rfl

@[simp] theorem tokens_grouped :
    s.grouped.tokens = .symbol .leftParen :: s.tokens ++ [.symbol .rightParen] := rfl

@[simp] theorem tokens_block : (block spellings).tokens =
    .symbol .leftBrace :: (joined (spellings.map nested)).tokens ++ [.symbol .rightBrace] := rfl

theorem append_assoc (s'' : Spelling) : s ++ s' ++ s'' = s ++ (s' ++ s'') := by
  show Spelling.mk _ _ = .mk _ _
  rw [Spelling.mk.injEq]
  exact ⟨List.append_assoc .., Nat.max_assoc ..⟩

@[simp] theorem nesting_of (ts : List Token) : (of ts).nesting = 0 := rfl

@[simp] theorem nesting_mark (m : Symbol) : (mark m).nesting = 0 := rfl

@[simp] theorem nesting_word (w : Keyword) : (word w).nesting = 0 := rfl

@[simp] theorem nesting_append : (s ++ s').nesting = max s.nesting s'.nesting := rfl

@[simp] theorem nesting_nested : s.nested.nesting = s.nesting + 1 := rfl

@[simp] theorem nesting_grouped : s.grouped.nesting = s.nesting + 1 := by
  simp only [grouped, nesting_append, nesting_mark, nesting_nested]
  omega

@[simp] theorem nesting_semicolonIf (ended : Bool) : (semicolonIf ended).nesting = 0 := by
  cases ended <;> rfl

end Tokens

end Spelling

/-- The token of a property name after a dot. -/
def nameToken (name : String) : Token :=
  match Keyword.all.find? fun word => word.text == name with
  | some word => .keyword word
  | none => .identifier name

def Expr.isVariable (name : String) : Expr → Bool
  | identifier other _ => other == name
  | _ => false

mutual

/-- The spelling of an expression. If a statement `opens` with it, an object or a function that it
starts with needs parentheses. -/
def Expr.layout (opens : Bool) : Expr → Spelling
  | .number x _ => .of [.number x]
  | .string text _ => .of [.string text]
  | .bool b _ => .word (if b then .true else .false)
  | .null _ => .word .null
  | .identifier name _ => .of [.identifier name]
  | .this _ => .word .this
  | .array items _ =>
    .mark .leftBracket ++ .commas (items.map fun e => (e.layout false).nested) ++
      .mark .rightBracket
  | .object properties _ =>
    let s := .mark .leftBrace ++ .commas (properties.map fun p =>
      if p.2.isVariable p.1 then .of [.identifier p.1]
      else .of [.string p.1, .symbol .colon] ++ (p.2.layout false).nested) ++ .mark .rightBrace
    if opens then s.grouped else s
  | .function literal => if opens then literal.layout.grouped else literal.layout
  | .unary op e _ => .of [op.token] ++ (e.within .unary false).nested
  | .binary op e e' _ =>
    e.within op.level opens ++ .mark op.mark ++ e'.within op.level.tighter false
  | .logical op e e' _ =>
    e.within op.level opens ++ .mark op.mark ++ e'.within op.level.tighter false
  | .conditional e e' e'' _ =>
    e.within .disjunction opens ++ .mark .question ++ (e'.layout false).nested ++ .mark .colon ++
      (e''.layout false).nested
  | .assign op target e _ =>
    target.within .conditional opens ++ .mark ((assignMark? op).getD .assign) ++
      (e.layout false).nested
  | .update step .before target _ => .mark step.mark ++ (target.within .unary false).nested
  | .update step .after target _ => target.within .callMember opens ++ .mark step.mark
  | .call e arguments _ =>
    e.within .callMember opens ++ .mark .leftParen ++
      .commas (arguments.map fun e => (e.layout false).nested) ++ .mark .rightParen
  | .member e name _ => e.within .callMember opens ++ .of [.symbol .dot, nameToken name]
  | .index e e' _ =>
    e.within .callMember opens ++ .mark .leftBracket ++ (e'.layout false).nested ++
      .mark .rightBracket
termination_by e => (sizeOf e, 0)
decreasing_by
  all_goals first
    | decreasing_tactic
    | (refine Prod.Lex.left _ _ ?_
       have := sizeOf_snd_lt ‹_ ∈ _›
       simp only [Expr.object.sizeOf_spec]
       omega)

/-- The spelling of an expression where one of a level has to stand. -/
def Expr.within (level : Level) (opens : Bool) (e : Expr) : Spelling :=
  if e.level ≤ level then e.layout opens else (e.layout false).grouped
termination_by (sizeOf e, 1)

def FunctionDef.layout : FunctionDef → Spelling
  | .mk name params body _ =>
    .word .function ++ .of (name.toList.map .identifier) ++ .mark .leftParen ++
      .commas (params.map fun p => .of [.identifier p]) ++ .mark .rightParen ++
      .block (body.map fun s => s.layout true)
termination_by f => (sizeOf f, 0)

/-- The spelling of a statement, `ended` by its semicolon unless it stands in the head of a loop. -/
def Stmt.layout (ended : Bool) : Stmt → Spelling
  | .declaration kind ds _ =>
    .word kind.word ++ .commas (ds.map fun d => .of [.identifier d.1] ++
      match _ : d.2 with
      | none => .of []
      | some e => .mark .assign ++ (e.layout false).nested) ++ .semicolonIf ended
  | .function literal => literal.layout
  | .expression e => (e.layout ended).nested ++ .semicolonIf ended
  | .«if» e s s' _ =>
    .word .«if» ++ (e.layout false).grouped ++ (s.layout true).nested ++
      match s' with
      | none => .of []
      | some s' => .word .«else» ++ (s'.layout true).nested
  | .«while» e s _ => .word .«while» ++ (e.layout false).grouped ++ (s.layout true).nested
  | .«for» init e e' s _ =>
    .word .«for» ++ .mark .leftParen ++
      (match init with
        | none => .of []
        | some s => s.layout false) ++ .mark .semicolon ++
      (match e with
        | none => .of []
        | some e => (e.layout false).nested) ++ .mark .semicolon ++
      (match e' with
        | none => .of []
        | some e => (e.layout false).nested) ++ .mark .rightParen ++ (s.layout true).nested
  | .block body _ => .block (body.map fun s => s.layout true)
  | .«return» e _ =>
    .word .«return» ++
      (match e with
        | none => .of []
        | some e => (e.layout false).nested) ++ .semicolonIf ended
  | .throw e _ => .word .throw ++ (e.layout false).nested ++ .semicolonIf ended
  | .«break» _ => .word .«break» ++ .semicolonIf ended
  | .«continue» _ => .word .«continue» ++ .semicolonIf ended
  | .«try» body param handler finalizer _ =>
    .word .«try» ++ .block (body.map fun s => s.layout true) ++
      (match handler with
        | none => .of []
        | some handler =>
          .word .«catch» ++
            .of (param.elim [] fun name =>
              [.symbol .leftParen, .identifier name, .symbol .rightParen]) ++
            .block (handler.map fun s => s.layout true)) ++
      match finalizer with
      | none => .of []
      | some finalizer => .word .«finally» ++ .block (finalizer.map fun s => s.layout true)
  | .empty _ => .mark .semicolon
termination_by s => (sizeOf s, 0)
decreasing_by
  all_goals first
    | decreasing_tactic
    | exact Prod.Lex.left _ _ (Stmt.sizeOf_lt_declaration ‹_ ∈ _› ‹_›)

end

/-! ### What the parts of a spelling are -/

/-- The spelling of a property: its name alone if it stands for the variable so called. -/
def propertyLayout (p : String × Expr) : Spelling :=
  if p.2.isVariable p.1 then .of [.identifier p.1]
  else .of [.string p.1, .symbol .colon] ++ (p.2.layout false).nested

def declaratorLayout (d : String × Option Expr) : Spelling :=
  .of [.identifier d.1] ++ d.2.elim (.of []) fun e => .mark .assign ++ (e.layout false).nested

def optionalLayout (e : Option Expr) : Spelling :=
  e.elim (.of []) fun e => (e.layout false).nested

def alternateLayout (s : Option Stmt) : Spelling :=
  s.elim (.of []) fun s => .word .«else» ++ (s.layout true).nested

def blockLayout (body : List Stmt) : Spelling :=
  .block (body.map (Stmt.layout true))

def handlerLayout (param : Option String) (handler : Option (List Stmt)) : Spelling :=
  handler.elim (.of []) fun handler => .word .«catch» ++
    .of (param.elim [] fun name => [.symbol .leftParen, .identifier name, .symbol .rightParen]) ++
    blockLayout handler

def finalizerLayout (finalizer : Option (List Stmt)) : Spelling :=
  finalizer.elim (.of []) fun finalizer => .word .«finally» ++ blockLayout finalizer

section Layouts

variable {opens ended : Bool} {span : Span}

theorem Expr.layout_object (properties : List (String × Expr)) :
    (object properties span).layout false =
      .mark .leftBrace ++ .commas (properties.map propertyLayout) ++ .mark .rightBrace := by
  rw [layout]
  rfl

theorem Stmt.layout_declaration (kind : DeclarationWord) (ds : List (String × Option Expr)) :
    (declaration kind ds span).layout ended =
      .word kind.word ++ .commas (ds.map declaratorLayout) ++ .semicolonIf ended := by
  rw [layout]
  congr
  funext ⟨name, init⟩
  cases init <;> rfl

theorem Stmt.layout_if (e : Expr) (s : Stmt) (s' : Option Stmt) :
    («if» e s s' span).layout ended =
      .word .«if» ++ (e.layout false).grouped ++ (s.layout true).nested ++ alternateLayout s' := by
  cases s' <;> rw [layout] <;> rfl

theorem Stmt.layout_for (init : Option Stmt) (e e' : Option Expr) (s : Stmt) :
    («for» init e e' s span).layout ended =
      .word .«for» ++ .mark .leftParen ++ init.elim (.of []) (Stmt.layout false) ++
        .mark .semicolon ++ optionalLayout e ++ .mark .semicolon ++ optionalLayout e' ++
        .mark .rightParen ++ (s.layout true).nested := by
  cases init <;> cases e <;> cases e' <;> rw [layout] <;> rfl

theorem Stmt.layout_return (e : Option Expr) :
    («return» e span).layout ended =
      .word .«return» ++ optionalLayout e ++ .semicolonIf ended := by
  cases e <;> rw [layout] <;> rfl

theorem Stmt.layout_try (body : List Stmt) (param : Option String)
    (handler finalizer : Option (List Stmt)) :
    («try» body param handler finalizer span).layout ended =
      .word .«try» ++ blockLayout body ++ handlerLayout param handler ++
        finalizerLayout finalizer := by
  cases handler <;> cases finalizer <;> rw [layout] <;> rfl

end Layouts

/-! ### Nesting -/

namespace Spelling

variable {s s' : Spelling} {spellings : List Spelling} {n : Nat}

theorem nesting_append_le : (s ++ s').nesting ≤ n ↔ s.nesting ≤ n ∧ s'.nesting ≤ n :=
  Nat.max_le

theorem nesting_joined_le : (joined spellings).nesting ≤ n ↔ ∀ s ∈ spellings, s.nesting ≤ n := by
  induction spellings with
  | nil => exact ⟨fun _ => nofun, fun _ => Nat.zero_le n⟩
  | cons s rest ih => rw [joined, nesting_append_le, ih, List.forall_mem_cons]

theorem nesting_commas_le : (commas spellings).nesting ≤ n ↔ ∀ s ∈ spellings, s.nesting ≤ n := by
  induction spellings with
  | nil => exact ⟨fun _ => nofun, fun _ => Nat.zero_le n⟩
  | cons s rest ih =>
    cases rest with
    | nil => rw [List.forall_mem_singleton]; rfl
    | cons s' rest =>
      have hcommas : commas (s :: s' :: rest) = s ++ mark .comma ++ commas (s' :: rest) := rfl
      rw [hcommas, nesting_append_le, nesting_append_le, ih, List.forall_mem_cons (a := s)]
      simp only [nesting_mark, Nat.zero_le, and_true]

theorem nesting_block_le :
    (block spellings).nesting ≤ n ↔ ∀ s ∈ spellings, s.nesting + 1 ≤ n := by
  rw [block, nesting_append_le, nesting_append_le, nesting_joined_le, List.forall_mem_map]
  simp only [nesting_mark, Nat.zero_le, true_and, and_true, nesting_nested]

end Spelling

/-! ### What an expression begins with -/

/-- The operand that an expression begins with, and the level that has to stand there. -/
def Expr.first? : Expr → Option (Level × Expr)
  | member e _ _ | index e _ _ | call e _ _ | update _ .after e _ => some (.callMember, e)
  | binary op e _ _ => some (op.level, e)
  | logical op e _ _ => some (op.level, e)
  | conditional e _ _ _ => some (.disjunction, e)
  | assign _ e _ _ => some (.conditional, e)
  | _ => none

namespace Expr

variable {l l' : Level} {opens : Bool} {e e' : Expr}

theorem within_of_le (h : e.level ≤ l) : e.within l opens = e.layout opens := by
  rw [within, if_pos h]

theorem within_of_not_le (h : ¬ e.level ≤ l) : e.within l opens = (e.layout false).grouped := by
  rw [within, if_neg h]

theorem within_assignment : e.within .assignment opens = e.layout opens := by
  refine within_of_le ?_
  cases e.level <;> decide

theorem first?_mem_parts (h : e.first? = some (l, e')) : .expr e' ∈ e.parts := by
  unfold first? at h
  split at h <;> cases h <;> exact List.mem_cons_self ..

theorem level_of_first? (h : e.first? = some (l, e')) : l ≤ e.level := by
  unfold first? at h
  split at h <;> cases h
  all_goals first
    | exact Level.le_refl _
    | exact Level.tighter_le .postfixed
    | exact Level.tighter_le .conditional
    | exact Level.tighter_le .assignment

theorem layout_of_first? (h : e.first? = some (l, e')) :
    ∃ tail : Spelling, ∀ opens, e.layout opens = e'.within l opens ++ tail := by
  cases e with
  | member =>
    cases h
    exact ⟨_, fun opens => by rw [layout]⟩
  | update step side =>
    cases side <;> cases h
    exact ⟨_, fun opens => by rw [layout]⟩
  | binary | logical =>
    cases h
    exact ⟨_, fun opens => by rw [layout, Spelling.append_assoc]⟩
  | conditional | assign | call | index =>
    cases h
    exact ⟨_, fun opens => by rw [layout]; simp only [Spelling.append_assoc]; rfl⟩
  | _ => cases h

/-- Parentheses around what a statement begins with take at most one level. -/
theorem nesting_layout (e : Expr) :
    (e.layout false).nesting ≤ (e.layout true).nesting ∧
      (e.layout true).nesting ≤ (e.layout false).nesting + 1 := by
  cases h : e.first? with
  | some p =>
    obtain ⟨l, e'⟩ := p
    obtain ⟨tail, htail⟩ := layout_of_first? h
    have ih := nesting_layout e'
    simp only [htail, Spelling.nesting_append]
    by_cases hl : e'.level ≤ l
    · rw [within_of_le hl, within_of_le hl]
      omega
    · rw [within_of_not_le hl, within_of_not_le hl]
      omega
  | none =>
    cases e with
    | object | function =>
      simp only [layout, if_true, Bool.false_eq_true, if_false, Spelling.nesting_grouped,
        Nat.le_succ, Nat.le_refl, and_self]
    | update step side =>
      cases side with
      | before => simp only [layout, Nat.le_refl, Nat.le_succ, and_self]
      | after => cases h
    | number | string | bool | null | identifier | this | array | unary =>
      simp only [layout, Nat.le_refl, Nat.le_succ, and_self]
    | _ => cases h
termination_by sizeOf e
decreasing_by
  have := sizeOf_lt_of_mem_parts (first?_mem_parts h)
  simpa only [Node.expr.sizeOf_spec, Nat.add_lt_add_iff_left] using this

theorem nesting_layout_true (e : Expr) :
    (e.layout true).nesting ≤ (e.layout false).nesting + 1 :=
  e.nesting_layout.2

theorem nesting_layout_false (e : Expr) (opens : Bool) :
    (e.layout false).nesting ≤ (e.layout opens).nesting := by
  cases opens with
  | false => exact Nat.le_refl _
  | true => exact e.nesting_layout.1

/-- The looser the level, the fewer parentheses. -/
theorem nesting_within_mono (h : l ≤ l') :
    (e.within l' opens).nesting ≤ (e.within l opens).nesting := by
  by_cases hl : e.level ≤ l
  · exact Nat.le_of_eq (by rw [within_of_le hl, within_of_le (Level.le_trans hl h)])
  · rw [within_of_not_le hl]
    by_cases hl' : e.level ≤ l'
    · rw [within_of_le hl', Spelling.nesting_grouped]
      cases opens with
      | false => exact Nat.le_succ _
      | true => exact nesting_layout_true e
    · exact Nat.le_of_eq (by rw [within_of_not_le hl'])

end Expr

/-- The token opens a literal, a variable, or something in brackets. -/
def Token.opensOperand : Token → Bool
  | .number _ | .string _ | .identifier _
  | .keyword .true | .keyword .false | .keyword .null | .keyword .this | .keyword .function
  | .symbol .leftParen | .symbol .leftBracket | .symbol .leftBrace => true
  | _ => false

def Token.opensExpression (t : Token) : Bool :=
  t.opensOperand || (unaryOp? t).isSome || (step? t).isSome

namespace Token

variable {t : Token}

theorem isSymbol_of_opensExpression (ht : t.opensExpression = true) {m : Symbol}
    (hm : (Token.symbol m).opensExpression = false) : t.isSymbol m = false := by
  cases h : t.isSymbol m with
  | false => rfl
  | true =>
    rw [eq_symbol h, hm] at ht
    contradiction

theorem isFinish_of_opensExpression (ht : t.opensExpression = true) : t.isFinish = false := by
  cases t with
  | finish => cases ht
  | _ => rfl

end Token

/-- The token may stand at the beginning of an expression of a level. -/
structure Token.Begins (level : Level) (opens : Bool) (t : Token) : Prop where
  expression : t.opensExpression = true
  operand : level ≤ .postfixed → t.opensOperand = true
  statement : opens = true → t.opensStatement = false

namespace Expr

variable {l l' : Level} {opens : Bool} {e e' : Expr}

theorem begins_grouped (s : Spelling) :
    ∃ t rest, s.grouped.tokens = t :: rest ∧ t.Begins l opens :=
  ⟨_, _, rfl, rfl, fun _ => rfl, fun _ => rfl⟩

theorem begins_within_of_layout (h : ∃ t rest, (e.layout opens).tokens = t :: rest ∧
    t.Begins e.level opens) :
    ∃ t rest, (e.within l opens).tokens = t :: rest ∧ t.Begins l opens := by
  by_cases hl : e.level ≤ l
  · obtain ⟨t, rest, hts, ht⟩ := h
    rw [within_of_le hl]
    exact ⟨t, rest, hts, ht.expression, fun h => ht.operand (Level.le_trans hl h), ht.statement⟩
  · rw [within_of_not_le hl]
    exact begins_grouped _

theorem begins_layout (e : Expr) (opens : Bool) :
    ∃ t rest, (e.layout opens).tokens = t :: rest ∧ t.Begins e.level opens := by
  cases h : e.first? with
  | some p =>
    obtain ⟨l, e'⟩ := p
    obtain ⟨tail, htail⟩ := layout_of_first? h
    have hl : l ≤ e.level := level_of_first? h
    obtain ⟨t, rest, hts, ht⟩ := begins_within_of_layout (l := l) (begins_layout e' opens)
    refine ⟨t, rest ++ tail.tokens, ?_, ht.expression,
      fun h => ht.operand (Level.le_trans hl h), ht.statement⟩
    rw [htail, Spelling.tokens_append, hts, List.cons_append]
  | none =>
    cases e with
    | object =>
      rw [layout]
      cases opens with
      | true => exact begins_grouped _
      | false => exact ⟨_, _, rfl, rfl, fun _ => rfl, nofun⟩
    | function literal =>
      obtain ⟨name, params, body, span⟩ := literal
      rw [layout, FunctionDef.layout]
      cases opens with
      | true => exact begins_grouped _
      | false => exact ⟨_, _, rfl, rfl, fun _ => rfl, nofun⟩
    | update step side =>
      cases side with
      | before =>
        rw [layout]
        cases step <;> exact ⟨_, _, rfl, rfl, nofun, fun _ => rfl⟩
      | after => cases h
    | unary op =>
      rw [layout]
      cases op <;> exact ⟨_, _, rfl, rfl, nofun, fun _ => rfl⟩
    | bool b =>
      rw [layout]
      cases b <;> exact ⟨_, _, rfl, rfl, fun _ => rfl, fun _ => rfl⟩
    | number | string | null | identifier | this | array =>
      rw [layout]
      exact ⟨_, _, rfl, rfl, fun _ => rfl, fun _ => rfl⟩
    | _ => cases h
termination_by sizeOf e
decreasing_by
  have := sizeOf_lt_of_mem_parts (first?_mem_parts h)
  simpa only [Node.expr.sizeOf_spec, Nat.add_lt_add_iff_left] using this

end Expr

/-- The token may stand at the beginning of a statement. -/
structure Token.BeginsStatement (t : Token) : Prop where
  finish : t.isFinish = false
  brace : t ≠ .symbol .rightBrace
  alternative : t ≠ .keyword .«else»
  finalizer : t ≠ .keyword .«finally»

theorem Stmt.begins_layout (s : Stmt) :
    ∃ t rest, (s.layout true).tokens = t :: rest ∧ t.BeginsStatement := by
  cases s with
  | expression e =>
    obtain ⟨t, rest, hts, ht⟩ := e.begins_layout true
    refine ⟨t, rest ++ [.symbol .semicolon], ?_, ?_⟩
    · rw [layout, Spelling.tokens_append, Spelling.tokens_nested, hts]
      rfl
    · refine ⟨Token.isFinish_of_opensExpression ht.expression, ?_, ?_, ?_⟩
      all_goals
        rintro rfl
        cases ht.expression
  | function literal =>
    obtain ⟨name, params, body, span⟩ := literal
    rw [layout, FunctionDef.layout]
    exact ⟨_, _, rfl, rfl, nofun, nofun, nofun⟩
  | declaration kind =>
    rw [layout_declaration]
    cases kind <;> exact ⟨_, _, rfl, rfl, nofun, nofun, nofun⟩
  | «if» =>
    rw [layout_if]
    exact ⟨_, _, rfl, rfl, nofun, nofun, nofun⟩
  | «for» =>
    rw [layout_for]
    exact ⟨_, _, rfl, rfl, nofun, nofun, nofun⟩
  | «return» =>
    rw [layout_return]
    exact ⟨_, _, rfl, rfl, nofun, nofun, nofun⟩
  | «try» =>
    rw [layout_try]
    exact ⟨_, _, rfl, rfl, nofun, nofun, nofun⟩
  | _ =>
    rw [layout]
    exact ⟨_, _, rfl, rfl, nofun, nofun, nofun⟩

/-- The tokens of some statements, one after the other. -/
def spelled (body : List Stmt) : List Token :=
  body.flatMap fun s => (s.layout true).tokens

theorem tokens_blockLayout (body : List Stmt) :
    (blockLayout body).tokens = .symbol .leftBrace :: spelled body ++ [.symbol .rightBrace] := by
  have hjoined (spellings : List Spelling) :
      (Spelling.joined (spellings.map .nested)).tokens = spellings.flatMap Spelling.tokens := by
    induction spellings with
    | nil => rfl
    | cons s rest ih => exact congrArg (s.tokens ++ ·) ih
  rw [blockLayout, Spelling.tokens_block, hjoined, List.flatMap_map]
  rfl

end ModuleLoader.Script
