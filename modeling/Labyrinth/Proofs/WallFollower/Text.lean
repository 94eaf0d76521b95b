import Labyrinth.Proofs.BreadthFirst.Text

/-!
# The tree of the wall follower

Both spellings of the template are read into the same program, up to the name of one function and to
the ways in which a map is read and a variable is changed.

## Main results

* `WallFollower.read_program`: the tree into which the template is read.
-/

namespace Labyrinth

namespace WallFollower

open BreadthFirst (coordinate constants element move)

variable (d : Dialect)

/-- The name of the function that tells whether there is an opening. -/
def openName : Dialect → String
  | .indented => "open_towards"
  | .braced => "openTowards"

/-- Changes a variable. -/
def set (x : String) (value : Expr) : Dialect → Stmt
  | .indented => .declare (.single x) (some value) false
  | .braced => .assign (.name x) none value

/-- The number of a direction in the program. -/
def number : Direction → Int64
  | .up => 0
  | .right => 1
  | .down => 2
  | .left => 3

/-- The directions in the order of their numbers. -/
def numbered : List Direction := [.up, .right, .down, .left]

/-- The offset of a direction, as a list in the program. -/
def offset (dir : Direction) : Expr :=
  .list [.literal (.int (Int64.ofInt dir.offset.1)), .literal (.int (Int64.ofInt dir.offset.2))]

/-! ### Functions -/

/-- Whether a variable holds the number of a direction. -/
def isNumber (dir : Direction) : Expr :=
  .binary .eq (.name "heading") (.literal (.int (number dir)))

/-- Makes the step in a direction that is given by its number. -/
def step : Definition := ⟨"step", ["heading"], [
  .cond (.arm (isNumber .up) (move .up) (.arm (isNumber .right) (move .right)
    (.arm (isNumber .down) (move .down) (.otherwise (move .left)))))]⟩

/-- Tells whether the cell in a direction is open. -/
def openTowards : Definition := ⟨openName d, ["x", "y", "heading"], [
  BreadthFirst.bind d "offset" (.index (.name "HEADINGS") (.name "heading")),
  .return (some (.unary .not (.capability .isWall [.binary .add (.name "x") (element "offset" 0),
    .binary .add (.name "y") (element "offset" 1)])))]⟩

/-- The functions of the program. -/
def definitions : List Definition := [step, openTowards d]

/-! ### The program -/

/-- Tries one turn, and makes a step if it leads to an opening. -/
def tryTurn : List Stmt := [
  BreadthFirst.bind d "candidate" (.binary .rem (.binary .add (.name "heading") (.name "turn"))
    (.literal (.int 4))),
  .cond (.arm (.call (openName d) [coordinate d "x", coordinate d "y", .name "candidate"]) [
    set "heading" (.name "candidate") d,
    .expr (.call "step" [.name "heading"]),
    .break] .done)]

/-- The turns that are tried: to the right, straight on, to the left, back. -/
def turns : List Int64 := [1, 0, 3, 2]

/-- Makes the next step and looks where that has led. -/
def round : List Stmt := [
  .forEach (.single "turn") (.list (turns.map fun n => .literal (.int n))) (tryTurn d),
  set "pos" (.capability .getPosition []) d]

/-- Makes steps until the cursor is on the exit. -/
def loop : Stmt :=
  .while (.unary .not (.capability .isExit [coordinate d "x", coordinate d "y"])) (round d)

/-- The comment at the beginning, which only one of the dialects keeps. -/
def comments : Dialect → List Stmt
  | .indented => [
    .comment " Right-hand wall follower: keep a wall on the right until the exit."]
  | .braced => []

/-- Prepares for the walk. -/
def start : List Stmt :=
  comments d ++ [BreadthFirst.bind d "HEADINGS" (.list (numbered.map offset))] ++
    (definitions d).map (fun f => .function f.name f.params f.body) ++ [
      .declare (.single "heading") (some (.literal (.int 1))) false,
      .declare (.single "pos") (some (.capability .getPosition [])) false]

/-- The tree of the program. -/
def tree : List Stmt := start d ++ [loop d]

/-! ### Reading -/

set_option maxRecDepth 100000 in
theorem parse_indented :
    Indented.parse (Text.unlines Template.wallFollowerIndented) = .ok (tree .indented) :=
  Indented.parse_unlines 3000 (by decide +kernel)

set_option maxRecDepth 100000 in
theorem parse_braced :
    Braced.parse (Text.unlines Template.wallFollowerBraced) = .ok (tree .braced) :=
  Braced.parse_unlines 3000 (by decide +kernel)

/-- The tree into which the template is read. -/
theorem read_program : (Template.wallFollower.program d).read = .ok (tree d) :=
  match d with
  | .indented => parse_indented
  | .braced => parse_braced

/-! ### Functions by their names -/

theorem find?_step : (definitions d).find? (·.name == "step") = some step := rfl

theorem find?_openTowards :
    (definitions d).find? (·.name == openName d) = some (openTowards d) := by
  cases d <;> rfl

theorem allDefinitions_tree : Stmt.allDefinitions (tree d) = definitions d := by
  cases d <;> rfl

end WallFollower

end Labyrinth
