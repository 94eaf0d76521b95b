import Labyrinth.Language.Read
import Labyrinth.Proofs.Language.BracedHeights
import Labyrinth.Proofs.Language.IndentedHeights
import Labyrinth.Proofs.Language.Scanning

/-!
# How deep a tree is

A parser gives up when it is nested too deeply, so there is a bound on how many nodes lie on top of
one another in the tree of a program. But a chain of operators gives back the room that its links
have taken, while all its links lie above its first operand. With a chain in every pair of brackets
the bound is therefore quadratic in the room, and a tree can be much deeper than the room is large.

## Main results

* `Program.heights_of_read`: the bound on the tree of a program.
* `Program.lt_heights_tower`: a program whose tree is more than ten times as deep as the room
  is large.
-/

namespace Labyrinth

/-- How many nodes lie on top of one another at most in the tree of a program. -/
def Dialect.reach : Dialect → Nat
  | .indented => 5 * (maxNesting * (maxNesting + 1)) / 2
  | .braced => 7 * (maxNesting * (maxNesting - 1)) / 2 + maxNesting + 1

/-- The tree of a program is not deeper than its dialect lets it be. -/
theorem Program.heights_of_read {p : Program} {body : List Stmt} (h : p.read = .ok body) :
    Stmt.heights body ≤ p.dialect.reach := by
  obtain ⟨_ | _, source⟩ := p
  · exact Indented.heights_of_parse h
  · exact Braced.heights_of_parse h

/-! ### A deep tree -/

/-- A sum whose first summand is another such sum in brackets. -/
def bracketedSums : Nat → List Char
  | 0 => ['1']
  | n + 1 => '(' :: (bracketedSums n ++ ')' :: (List.replicate 84 ['+', '1']).flatten)

/-- Twelve sums in one another, with 84 links each. -/
def Program.tower : Program := ⟨.indented, String.ofList (bracketedSums 12)⟩

/-- A source that is given by its characters is read with fuel. -/
theorem Indented.parse_ofList (fuel : Nat) {cs : List Char} {stmts : List Stmt}
    (h : (do (program.run (.ok (← scanWithin fuel .lineStart []
      ⟨cs, Position.start⟩))).toOption) = some stmts) :
    parse (String.ofList cs) = .ok stmts := by
  obtain ⟨ts, hts, hrun⟩ := Option.bind_eq_some_iff.1 h
  rw [parse, tokens, Reader.ofString, String.toList_ofList, scan_of_scanWithin hts]
  exact eq_ok_of_toOption hrun

set_option maxRecDepth 100000 in
/-- The tower has one statement, twelve times 84 sums and a literal on top of one another. -/
theorem Program.read_tower :
    ∃ body, Program.tower.read = .ok body ∧ Stmt.heights body = 1010 := by
  have hheight : (do (Indented.program.run (.ok (← Indented.scanWithin 3000 .lineStart []
      ⟨bracketedSums 12, Position.start⟩))).toOption).map Stmt.heights = some 1010 := by
    decide +kernel
  obtain ⟨body, hbody, hheight⟩ := Option.map_eq_some_iff.1 hheight
  exact ⟨body, Indented.parse_ofList 3000 hbody, hheight⟩

theorem Program.heights_tower_le_reach :
    ∃ body, Program.tower.read = .ok body ∧ Stmt.heights body ≤ Program.tower.dialect.reach := by
  obtain ⟨body, hbody, -⟩ := Program.read_tower
  exact ⟨body, hbody, Program.heights_of_read hbody⟩

/-- The tower is read although its tree is more than ten times as deep as the room is large. -/
theorem Program.lt_heights_tower :
    ∃ body, Program.tower.read = .ok body ∧ 10 * maxNesting < Stmt.heights body := by
  obtain ⟨body, hbody, hheight⟩ := Program.read_tower
  exact ⟨body, hbody, by rw [hheight]; decide⟩

end Labyrinth
