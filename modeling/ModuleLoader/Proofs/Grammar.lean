import ModuleLoader.Script.Tree.Program

/-! The stratified grammar of scripts, as derivations of trees from the tokens that spell them.
Every rule names all the tokens of its node; grouping parentheses, the semicolon of a simple
statement and the last comma of a list are the only tokens that leave no trace in a tree. -/
namespace ModuleLoader.Script

/-- The levels of expressions, tightest first. -/
inductive Level where
  | primary | callMember | postfixed | unary | multiplicative | additive | relational | equality
  | conjunction | disjunction | conditional | assignment
deriving Repr, DecidableEq

namespace Level

instance : LE Level := ⟨fun l m => l.ctorIdx ≤ m.ctorIdx⟩

instance (l m : Level) : Decidable (l ≤ m) := Nat.decLe l.ctorIdx m.ctorIdx

def tighter : Level → Level
  | primary | callMember => primary
  | postfixed => callMember
  | unary => postfixed
  | multiplicative => unary
  | additive => multiplicative
  | relational => additive
  | equality => relational
  | conjunction => equality
  | disjunction => conjunction
  | conditional => disjunction
  | assignment => conditional

theorem le_refl (l : Level) : l ≤ l := Nat.le_refl l.ctorIdx

theorem le_trans {k l m : Level} (h : k ≤ l) (h' : l ≤ m) : k ≤ m := Nat.le_trans h h'

theorem tighter_le (l : Level) : l.tighter ≤ l := by
  cases l <;> decide

end Level

/-! The spelling of operators. -/

def UnaryOp.token : UnaryOp → Token
  | .not => .symbol .not
  | .negate => .symbol .minus
  | .plus => .symbol .plus
  | .typeof => .keyword .typeof

def Step.mark : Step → Symbol
  | .up => .increment
  | .down => .decrement

def BinaryOp.mark : BinaryOp → Symbol
  | .add => .plus
  | .subtract => .minus
  | .multiply => .times
  | .divide => .divide
  | .remainder => .remainder
  | .equal => .equal
  | .notEqual => .notEqual
  | .strictEqual => .strictEqual
  | .strictNotEqual => .strictNotEqual
  | .less => .less
  | .lessEqual => .lessEqual
  | .greater => .greater
  | .greaterEqual => .greaterEqual

def BinaryOp.level : BinaryOp → Level
  | .add | .subtract => .additive
  | .multiply | .divide | .remainder => .multiplicative
  | .equal | .notEqual | .strictEqual | .strictNotEqual => .equality
  | .less | .lessEqual | .greater | .greaterEqual => .relational

def LogicalOp.mark : LogicalOp → Symbol
  | .and => .and
  | .or => .or
  | .coalesce => .coalesce

def LogicalOp.level : LogicalOp → Level
  | .and => .conjunction
  | .or | .coalesce => .disjunction

/-- The mark of an assignment; only sums and products have one of their own. -/
def assignMark? : Option BinaryOp → Option Symbol
  | none => some .assign
  | some .add => some .plusAssign
  | some .subtract => some .minusAssign
  | some .multiply => some .timesAssign
  | some .divide => some .divideAssign
  | some .remainder => some .remainderAssign
  | some _ => none

def DeclarationWord.word : DeclarationWord → Keyword
  | .«let» => .«let»
  | .«const» => .«const»
  | .«var» => .«var»

def Expr.level : Expr → Level
  | number _ _ | string _ _ | bool _ _ | null _ | identifier _ _ | this _ | array _ _ | object _ _
  | function _ => .primary
  | member _ _ _ | index _ _ _ | call _ _ _ => .callMember
  | update _ .after _ _ => .postfixed
  | update _ .before _ _ | unary _ _ _ => .unary
  | binary op _ _ _ => op.level
  | logical op _ _ _ => op.level
  | conditional _ _ _ _ => .conditional
  | assign _ _ _ _ => .assignment

def Token.leaf? (t : Token) (span : Span) : Option Expr :=
  match t with
  | .number x => some (.number x span)
  | .string s => some (.string s span)
  | .keyword .true => some (.bool true span)
  | .keyword .false => some (.bool false span)
  | .keyword .null => some (.null span)
  | .keyword .this => some (.this span)
  | .identifier name => some (.identifier name span)
  | _ => none

/-- The key that a token gives a property of an object literal. -/
def Token.key? : Token → Option String
  | .string key => some key
  | .number x => some (Number.text x)
  | t => t.asName?

/-- The token opens a statement of its own kind, so that no expression statement starts with
it. -/
def Token.opensStatement : Token → Bool
  | .keyword .«let» | .keyword .«const» | .keyword .«var» | .keyword .function | .keyword .«if»
  | .keyword .«while» | .keyword .«for» | .keyword .«try» | .keyword .«return» | .keyword .throw
  | .keyword .«break» | .keyword .«continue» | .keyword .new
  | .symbol .leftBrace | .symbol .semicolon => true
  | _ => false

abbrev Symbol.at (mark : Symbol) (span : Span) : Spanned Token := ⟨.symbol mark, span⟩

abbrev Keyword.at (word : Keyword) (span : Span) : Spanned Token := ⟨.keyword word, span⟩

/-- What the grammar derives. Statements know whether a loop surrounds them. -/
inductive Category where
  | expression (level : Level)
  | property | name | function
  | declarator (kind : DeclarationWord) | declarators (kind : DeclarationWord) | declaration
  | opening | binding
  | simple (inLoop : Bool) | statement (inLoop : Bool) | block (inLoop : Bool)
  | alternative (inLoop : Bool) | handler (inLoop : Bool) | finalizer (inLoop : Bool)
  /-- Items with commas between them and perhaps one behind. -/
  | list (item : Category)
  /-- Items side by side. -/
  | many (item : Category)
  | option (item : Category)
deriving Repr, DecidableEq

/-- The trees of a category, with the place where they end if no node holds it. -/
abbrev Category.Tree : Category → Type
  | expression _ => Expr
  | property => String × Expr
  | name | binding => String
  | function => FunctionDef
  | declarator _ => (String × Option Expr) × Span
  | declarators _ => List (String × Option Expr) × Span
  | declaration | opening | simple _ | statement _ | alternative _ => Stmt
  | block _ | finalizer _ => List Stmt × Span
  | handler _ => Option String × List Stmt × Span
  | list item | many item => List item.Tree
  | option item => Option item.Tree

/-- These tokens, all of them and in this order, spell this tree of a category. -/
inductive Derives : (c : Category) → Tokens → c.Tree → Prop where
  | up : Derives (.expression l.tighter) us e → Derives (.expression l) us e
  | leaf : Token.leaf? t s = some e → Derives (.expression .primary) [⟨t, s⟩] e
  | group : Derives (.expression .assignment) us e →
      Derives (.expression .primary)
        (Symbol.leftParen.at s :: us ++ [Symbol.rightParen.at s']) e
  | array : Derives (.list (.expression .assignment)) us items →
      Derives (.expression .primary)
        (Symbol.leftBracket.at s :: us ++ [Symbol.rightBracket.at s'])
        (.array items (s.merge s'))
  | object : Derives (.list .property) us properties →
      Derives (.expression .primary)
        (Symbol.leftBrace.at s :: us ++ [Symbol.rightBrace.at s'])
        (.object properties (s.merge s'))
  | functionExpression : Derives .function us f →
      Derives (.expression .primary) us (.function f)
  | member : Derives (.expression .callMember) us e → Token.asName? t = some name →
      Derives (.expression .callMember) (us ++ [Symbol.dot.at s, ⟨t, s'⟩])
        (.member e name (e.span.merge s'))
  | index : Derives (.expression .callMember) us e → Derives (.expression .assignment) vs i →
      Derives (.expression .callMember)
        (us ++ Symbol.leftBracket.at s :: vs ++ [Symbol.rightBracket.at s'])
        (.index e i (e.span.merge s'))
  | call : Derives (.expression .callMember) us e →
      Derives (.list (.expression .assignment)) vs args →
      Derives (.expression .callMember)
        (us ++ Symbol.leftParen.at s :: vs ++ [Symbol.rightParen.at s'])
        (.call e args (e.span.merge s'))
  | updateAfter (step : Step) : Derives (.expression .callMember) us e → e.isTarget →
      Derives (.expression .postfixed) (us ++ [step.mark.at s])
        (.update step .after e ((e.span.merge s).merge e.span))
  | updateBefore (step : Step) : Derives (.expression .unary) us e → e.isTarget →
      Derives (.expression .unary) (step.mark.at s :: us)
        (.update step .before e (s.merge e.span))
  | unary (op : UnaryOp) : Derives (.expression .unary) us e →
      Derives (.expression .unary) (⟨op.token, s⟩ :: us) (.unary op e (s.merge e.span))
  | binary (op : BinaryOp) : Derives (.expression op.level) us e →
      Derives (.expression op.level.tighter) vs e' →
      Derives (.expression op.level) (us ++ op.mark.at s :: vs)
        (.binary op e e' (e.span.merge e'.span))
  | logical (op : LogicalOp) : Derives (.expression op.level) us e →
      Derives (.expression op.level.tighter) vs e' →
      Derives (.expression op.level) (us ++ op.mark.at s :: vs)
        (.logical op e e' (e.span.merge e'.span))
  | conditional : Derives (.expression .disjunction) us test →
      Derives (.expression .assignment) vs e → Derives (.expression .assignment) ws e' →
      Derives (.expression .conditional)
        (us ++ Symbol.question.at s :: vs ++ Symbol.colon.at s' :: ws)
        (.conditional test e e' (test.span.merge e'.span))
  | assign : Derives (.expression .conditional) us target → target.isTarget →
      assignMark? op = some mark → Derives (.expression .assignment) vs e →
      Derives (.expression .assignment) (us ++ mark.at s :: vs)
        (.assign op target e (target.span.merge e.span))
  -- Parts of expressions.
  | keyed : t.key? = some key → Derives (.expression .assignment) us e →
      Derives .property (⟨t, s⟩ :: Symbol.colon.at s' :: us) (key, e)
  | shorthand : Derives .property [⟨.identifier name, s⟩] (name, .identifier name s)
  | name : Derives .name [⟨.identifier name, s⟩] name
  | function : Derives (.option .name) us name → Derives (.list .name) vs params →
      Derives (.block false) ws (body, s₃) →
      Derives .function (Keyword.function.at s :: us ++ Symbol.leftParen.at s₁ :: vs ++
        Symbol.rightParen.at s₂ :: ws) (.mk name params body (s.merge s₃))
  -- Declarations.
  | initialized : Derives (.expression .assignment) us e →
      Derives (.declarator kind) (⟨.identifier name, s⟩ :: Symbol.assign.at s' :: us)
        ((name, some e), e.span)
  | uninitialized : kind ≠ .«const» →
      Derives (.declarator kind) [⟨.identifier name, s⟩] ((name, none), s)
  | lastDeclarator : Derives (.declarator kind) us d →
      Derives (.declarators kind) us ([d.1], d.2)
  | nextDeclarator : Derives (.declarator kind) us d → Derives (.declarators kind) vs ds →
      Derives (.declarators kind) (us ++ Symbol.comma.at s :: vs) (d.1 :: ds.1, ds.2)
  | declaration : Derives (.declarators kind) us ds →
      Derives .declaration (kind.word.at s :: us) (.declaration kind ds.1 (s.merge ds.2))
  -- Simple statements, and the semicolon that may end them.
  | simpleDeclaration : Derives .declaration us d → Derives (.simple l) us d
  | simpleExpression : Derives (.expression .assignment) us e →
      us.current.opensStatement = false → Derives (.simple l) us (.expression e)
  | return : Derives (.option (.expression .assignment)) us value →
      Derives (.simple l) (Keyword.return.at s :: us)
        (.return value (value.elim s fun e => s.merge e.span))
  | throw : Derives (.expression .assignment) us e →
      Derives (.simple l) (Keyword.throw.at s :: us) (.throw e (s.merge e.span))
  | break : Derives (.simple true) [Keyword.break.at s] (.break s)
  | continue : Derives (.simple true) [Keyword.continue.at s] (.continue s)
  | unended : Derives (.simple l) us d → Derives (.statement l) us d
  | ended : Derives (.simple l) us d → Derives (.statement l) (us ++ [Symbol.semicolon.at s]) d
  -- Other statements.
  | empty : Derives (.statement l) [Symbol.semicolon.at s] (.empty s)
  | functionDeclaration : Derives .function us f → f.name.isSome →
      Derives (.statement l) us (.function f)
  | block : Derives (.many (.statement l)) us body →
      Derives (.block l) (Symbol.leftBrace.at s :: us ++ [Symbol.rightBrace.at s'])
        (body, s.merge s')
  | blockStatement : Derives (.block l) us b → Derives (.statement l) us (.block b.1 b.2)
  | if : Derives (.expression .assignment) us e → Derives (.statement l) vs d →
      Derives (.option (.alternative l)) ws d' →
      Derives (.statement l) (Keyword.if.at s :: Symbol.leftParen.at s₁ :: us ++
        Symbol.rightParen.at s₂ :: vs ++ ws) (.if e d d' (s.merge (d'.getD d).span))
  | alternative : Derives (.statement l) us d →
      Derives (.alternative l) (Keyword.else.at s :: us) d
  | while : Derives (.expression .assignment) us e → Derives (.statement true) vs d →
      Derives (.statement l) (Keyword.while.at s :: Symbol.leftParen.at s₁ :: us ++
        Symbol.rightParen.at s₂ :: vs) (.while e d (s.merge d.span))
  | for : Derives (.option .opening) us init → Derives (.option (.expression .assignment)) vs e →
      Derives (.option (.expression .assignment)) ws e' → Derives (.statement true) xs d →
      Derives (.statement l) (Keyword.for.at s :: Symbol.leftParen.at s₁ :: us ++
        Symbol.semicolon.at s₂ :: vs ++ Symbol.semicolon.at s₃ :: ws ++
        Symbol.rightParen.at s₄ :: xs) (.for init e e' d (s.merge d.span))
  | openingDeclaration : Derives .declaration us d → Derives .opening us d
  | openingExpression : Derives (.expression .assignment) us e →
      Derives .opening us (.expression e)
  | try : Derives (.block l) us b → Derives (.option (.handler l)) vs h →
      Derives (.option (.finalizer l)) ws f → (h.isSome || f.isSome) →
      Derives (.statement l) (Keyword.try.at s :: us ++ vs ++ ws)
        (.try b.1 (h.bind Prod.fst) (h.map fun h => h.2.1) (f.map Prod.fst)
          (s.merge (((f.map Prod.snd).or (h.map fun h => h.2.2)).getD b.2)))
  | handler : Derives (.option .binding) us param → Derives (.block l) vs b →
      Derives (.handler l) (Keyword.catch.at s :: us ++ vs) (param, b)
  | binding : Derives .binding [Symbol.leftParen.at s, ⟨.identifier name, s₁⟩,
      Symbol.rightParen.at s₂] name
  | finalizer : Derives (.block l) us b → Derives (.finalizer l) (Keyword.finally.at s :: us) b
  -- Repetitions.
  | absent : Derives (.option c) [] none
  | present : Derives c us x → Derives (.option c) us (some x)
  | listNil : Derives (.list c) [] []
  | listLast : Derives c us x → Derives (.list c) us [x]
  | listCons : Derives c us x → Derives (.list c) vs xs →
      Derives (.list c) (us ++ Symbol.comma.at s :: vs) (x :: xs)
  | manyNil : Derives (.many c) [] []
  | manyCons : Derives c us x → Derives (.many c) vs xs →
      Derives (.many c) (us ++ vs) (x :: xs)

/-- The tokens are a pair of grouping parentheses around an expression of any level. -/
def Expr.Grouped (e : Expr) (us : Tokens) : Prop :=
  ∃ s vs s', us = Symbol.leftParen.at s :: vs ++ [Symbol.rightParen.at s'] ∧
    Derives (.expression .assignment) vs e

/-- The operands of the outermost operator, with the loosest level that it allows them. -/
def Expr.operands : Expr → List (Level × Expr)
  | member e _ _ | index e _ _ | call e _ _ | update _ .after e _ => [(.callMember, e)]
  | update _ .before e _ | unary _ e _ => [(.unary, e)]
  | binary op e e' _ => [(op.level, e), (op.level.tighter, e')]
  | logical op e e' _ => [(op.level, e), (op.level.tighter, e')]
  | conditional e e' e'' _ => [(.disjunction, e), (.assignment, e'), (.assignment, e'')]
  | assign _ e e' _ => [(.conditional, e), (.assignment, e')]
  | _ => []

/-- Some of the tokens, side by side, spell the expression at this level or, if they are a pair of
parentheses and what is between them, at any. -/
def Expr.Stands (e : Expr) (level : Level) (us : Tokens) : Prop :=
  ∃ vs, vs <:+: us ∧ Derives (.expression level) vs e ∧ (e.level ≤ level ∨ e.Grouped vs)

namespace Category

/-- Only repetitions can be spelled by no token. -/
def solid : Category → Bool
  | list _ | many _ | option _ => false
  | _ => true

/-- The tokens spell an expression of the level or stand in parentheses. -/
def Leveled : (c : Category) → Tokens → c.Tree → Prop
  | expression level, us, e => e.level ≤ level ∨ e.Grouped us
  | _, _, _ => True

/-- Every operand of an expression stands within the tokens of the expression. -/
def Stratified : (c : Category) → Tokens → c.Tree → Prop
  | expression _, us, e => ∀ p ∈ e.operands, p.2.Stands p.1 us
  | _, _, _ => True

end Category

namespace Derives

variable {c : Category} {level : Level} {us vs : Tokens} {e : Expr} {t : c.Tree}

theorem ne_nil (h : Derives c us t) : c.solid → us ≠ [] := by
  induction h with
  | up _ ih | functionExpression _ ih | lastDeclarator _ ih | simpleDeclaration _ ih
  | unended _ ih | openingDeclaration _ ih | openingExpression _ ih | blockStatement _ ih =>
    exact fun _ => ih rfl
  | simpleExpression _ _ ih | functionDeclaration _ _ ih => exact fun _ => ih rfl
  | absent | present | listNil | listLast | listCons | manyNil | manyCons => simp [Category.solid]
  | _ => simp

theorem leveled (h : Derives c us t) : c.Leveled us t := by
  induction h with
  | up _ ih => exact ih.imp (fun hl => Level.le_trans hl (Level.tighter_le _)) id
  | group h => exact .inr ⟨_, _, _, rfl, h⟩
  | leaf h =>
    unfold Token.leaf? at h
    split at h <;> cases h <;> exact .inl (Level.le_refl _)
  | array | object | functionExpression | member | index | call | updateAfter | updateBefore
  | unary | binary | logical | conditional | assign => exact .inl (Level.le_refl _)
  | _ => trivial

theorem stands (h : Derives (.expression level) vs e) (hin : vs <:+: us) : e.Stands level us :=
  ⟨vs, hin, h, h.leveled⟩

theorem stratified (h : Derives c us t) : c.Stratified us t := by
  induction h with
  | up _ ih => exact ih
  | @group us e s s' _ ih =>
    intro p hp
    obtain ⟨vs, hin, hvs⟩ := ih p hp
    exact ⟨vs, hin.trans ⟨[Symbol.leftParen.at s], [Symbol.rightParen.at s'], rfl⟩, hvs⟩
  | leaf h =>
    unfold Token.leaf? at h
    split at h <;> cases h <;> intro p hp <;> cases hp
  | array | object | functionExpression => intro p hp; cases hp
  | member h | updateAfter _ h =>
    simp only [Category.Stratified, Expr.operands, List.forall_mem_singleton]
    exact h.stands (List.prefix_append _ _).isInfix
  | index h | call h =>
    simp only [Category.Stratified, Expr.operands, List.forall_mem_singleton]
    rw [List.append_assoc]
    exact h.stands (List.prefix_append _ _).isInfix
  | updateBefore _ h | unary _ h =>
    simp only [Category.Stratified, Expr.operands, List.forall_mem_singleton]
    exact h.stands (List.suffix_cons _ _).isInfix
  | binary _ h h' | logical _ h h' =>
    simp only [Category.Stratified, Expr.operands, List.forall_mem_cons]
    refine ⟨h.stands (List.prefix_append _ _).isInfix, h'.stands ?_, by simp⟩
    exact ((List.suffix_cons _ _).trans (List.suffix_append _ _)).isInfix
  | @conditional us test vs e ws e' s s' h h' h'' =>
    simp only [Category.Stratified, Expr.operands, List.forall_mem_cons]
    refine ⟨h.stands ?_, h'.stands ?_, h''.stands ?_, by simp⟩
    · exact ⟨[], Symbol.question.at s :: vs ++ Symbol.colon.at s' :: ws, by simp⟩
    · exact ⟨us ++ [Symbol.question.at s], Symbol.colon.at s' :: ws, by simp⟩
    · exact ⟨us ++ Symbol.question.at s :: vs ++ [Symbol.colon.at s'], [], by simp⟩
  | assign h _ _ h' =>
    simp only [Category.Stratified, Expr.operands, List.forall_mem_cons]
    refine ⟨h.stands (List.prefix_append _ _).isInfix, h'.stands ?_, by simp⟩
    exact ((List.suffix_cons _ _).trans (List.suffix_append _ _)).isInfix
  | _ => trivial

end Derives

end ModuleLoader.Script
