import ModuleLoader.Proofs.Clauses
import ModuleLoader.Proofs.Structures

/-! Scripts survive a round trip: the shortest spelling of a script that was read is read, under the
same limit of nesting, and as the same script. -/
namespace ModuleLoader.Script

open Reading

namespace Program

/-- The shortest spelling of a script, up to its closing token. -/
def render (p : Program) : List Token :=
  spelled p.statements

/-- The script, wherever its trees were read. -/
def bare (p : Program) : Program :=
  ⟨p.statements.map Stmt.bare, default⟩

/-- A well-formed script is read off its shortest spelling, if that nests less deep than the
limit. -/
theorem ofTokens_spelled {limit : Nat} {p : Program}
    (h : ∀ s ∈ p.statements, (Node.stmt s).Everywhere Node.Formed ∧ ¬ s.Escapes ∧
      (s.layout true).nesting < limit)
    {us : Tokens} (hus : us.map Spanned.value = p.render ++ [.finish]) :
    ∃ q, ofTokens limit us = .ok q ∧ q.bare = p.bare := by
  have hstatement (s : Stmt) (hs : s ∈ p.statements) :
      (nestedAt limit limit).ExpectsStatement false s := by
    obtain ⟨hformed, hstays, hnesting⟩ := h s hs
    exact (Node.rereadable _ hformed).1.expects hnesting fun _ => hstays
  have hread : (programAt limit).Gives (p.render ++ [.finish]) fun q _ =>
      q.statements.map Stmt.bare = p.statements.map Stmt.bare := by
    unfold programAt
    refine Gives.here fun start => Gives.get fun ts hts => ?_
    refine (gives_statementsUntilEnd hstatement _ (Nat.le_of_eq hts.symm)).bind ?_
    intro body rest hbody
    exact Gives.here fun stop => .pure hbody
  obtain ⟨q, rest, hrun, hq⟩ := hread us hus
  refine ⟨q, ?_, ?_⟩
  · rw [ofTokens, hrun]
    rfl
  · rw [bare, bare, hq]

/-- Reading the shortest spelling of a script that was read gives the script again, but for the
places of its nodes. -/
theorem ofTokens_render {limit : Nat} {ts : Tokens} {p : Program} (h : ofTokens limit ts = .ok p)
    {us : Tokens} (hus : us.map Spanned.value = p.render ++ [.finish]) :
    ∃ q, ofTokens limit us = .ok q ∧ q.bare = p.bare :=
  ofTokens_spelled (fits_of_ofTokens h) hus

/-- The tokens of `((a)) * (b + c) ({ k: x, x: x, })`, which ends without a semicolon. -/
def looseTokens : Tokens :=
  [.symbol .leftParen, .symbol .leftParen, .identifier "a", .symbol .rightParen,
    .symbol .rightParen, .symbol .times, .symbol .leftParen, .identifier "b", .symbol .plus,
    .identifier "c", .symbol .rightParen, .symbol .leftParen, .symbol .leftBrace, .identifier "k",
    .symbol .colon, .identifier "x", .symbol .comma, .identifier "x", .symbol .colon,
    .identifier "x", .symbol .comma, .symbol .rightBrace, .symbol .rightParen,
    .finish].map fun t => ⟨t, default⟩

/-- The tokens of `a * (b + c)({ "k": x, x });`. -/
def shortTokens : Tokens :=
  [.identifier "a", .symbol .times, .symbol .leftParen, .identifier "b", .symbol .plus,
    .identifier "c", .symbol .rightParen, .symbol .leftParen, .symbol .leftBrace, .string "k",
    .symbol .colon, .identifier "x", .symbol .comma, .identifier "x", .symbol .rightBrace,
    .symbol .rightParen, .symbol .semicolon, .finish].map fun t => ⟨t, default⟩

/-- The script that both spell. -/
def spelledTwice : Program :=
  ⟨[.expression (.binary .multiply (.identifier "a" default)
      (.call (.binary .add (.identifier "b" default) (.identifier "c" default) default)
        [.object [("k", .identifier "x" default), ("x", .identifier "x" default)] default]
        default) default)], default⟩

set_option maxRecDepth 2000 in
theorem ofTokens_render_sample :
    ofTokens 4 looseTokens = .ok spelledTwice ∧
      shortTokens.map Spanned.value = spelledTwice.render ++ [.finish] ∧
      ∃ q, ofTokens 4 shortTokens = .ok q ∧ q.bare = spelledTwice.bare := by
  have h : ofTokens 4 looseTokens = .ok spelledTwice := rfl
  have hrender : shortTokens.map Spanned.value = spelledTwice.render ++ [.finish] := by
    simp only [spelledTwice, render, spelled, List.flatMap_cons, List.flatMap_nil, Stmt.layout,
      Expr.layout, Expr.within, List.map_cons, List.map_nil]
    rfl
  exact ⟨h, hrender, ofTokens_render h hrender⟩

end Program

end ModuleLoader.Script
