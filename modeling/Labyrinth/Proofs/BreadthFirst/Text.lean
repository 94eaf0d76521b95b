import Labyrinth.Language.Template
import Labyrinth.Machine.Lowering
import Labyrinth.Proofs.Language.Scanning

/-!
# The tree of the breadth-first template

Both spellings of the template are read into the same functions, up to the names of some variables
and to the way in which a map is read and changed.

## Main results

* `BreadthFirst.read_program`: the tree into which the template is read.
-/

namespace Labyrinth

namespace BreadthFirst

variable (d : Dialect)

/-! ### Words that differ -/

/-- Whether names that are never assigned to again are declared as constants. -/
def constants : Dialect → Bool
  | .indented => false
  | .braced => true

/-- The name of the function that searches. -/
def searchName : Dialect → String
  | .indented => "find_route"
  | .braced => "findRoute"

/-- The name of the function that follows the links back to the start. -/
def backName : Dialect → String
  | .indented => "walk_back"
  | .braced => "walkBack"

/-- The name of the map from every cell that has been found to the link by which it has been. -/
def linksName : Dialect → String
  | .indented => "came_from"
  | .braced => "cameFrom"

/-- The map has a name of its own. -/
theorem linksName_ne {x : String} (hx : x ∉ ["came_from", "cameFrom"]) : linksName d ≠ x := by
  rintro rfl
  cases d <;> simp [linksName] at hx

/-- Binds a name. -/
def bind (x : String) (value : Expr) : Stmt := .declare (.single x) (some value) (constants d)

/-- An element of a list. -/
def element (list : String) (i : Int64) : Expr := .index (.name list) (.literal (.int i))

/-- A coordinate of the cursor. -/
def coordinate : Dialect → String → Expr
  | .indented, key => .index (.name "pos") (.literal (.str key))
  | .braced, key => .attribute (.name "pos") key

/-- Remembers by which link a cell has been found. -/
def setLink : Dialect → Stmt
  | .indented =>
    .assign (.index (.name (linksName .indented)) (.name "step")) none
      (.list [.name "current", .name "name"])
  | .braced =>
    .expr (.method (.name (linksName .braced)) .put
      [.name "step", .list [.name "current", .name "name"]])

/-- The link by which a cell has been found. -/
def getLink : Dialect → Expr
  | .indented => .index (.name (linksName .indented)) (.name "cell")
  | .braced => .method (.name (linksName .braced)) .get [.name "cell"]

/-- Goes to the cell from which the link comes. -/
def goBack : Dialect → Stmt
  | .indented => bind .indented "cell" (element "link" 0)
  | .braced => .assign (.name "cell") none (element "link" 0)

/-! ### Functions -/

/-- A direction with its offset, as a list in the program. -/
def offset (direction : Direction) : Expr :=
  .list [.literal (.int (Int64.ofInt direction.offset.1)),
    .literal (.int (Int64.ofInt direction.offset.2)), .literal (.str direction.name)]

/-- Appends the cell in one direction to the list of neighbours unless it is a wall. -/
def lookAround : List Stmt := [
  bind d "nx" (.binary .add (.name "x") (.name "dx")),
  bind d "ny" (.binary .add (.name "y") (.name "dy")),
  .cond (.arm (.unary .not (.capability .isWall [.name "nx", .name "ny"]))
    [.expr (.method (.name "found") .push [.list [.name "nx", .name "ny", .name "name"]])] .done)]

/-- Lists the open cells around a cell. -/
def neighbours : Definition := ⟨"neighbours", ["x", "y"], [
  bind d "found" (.list []),
  .forEach (.tuple ["dx", "dy", "name"]) (.list (Direction.all.map offset)) (lookAround d),
  .return (some (.name "found"))]⟩

/-- Puts a cell into the queue unless it has been found before. -/
def enqueue : List Stmt := [
  bind d "step" (.list [.name "nx", .name "ny"]),
  .cond (.arm (.unary .not (.method (.name (linksName d)) .has [.name "step"])) [
    setLink d,
    .expr (.method (.name "queue") .push [.name "step"])] .done)]

/-- Takes a cell out of the queue and looks around there. -/
def round : List Stmt := [
  bind d "current" (.method (.name "queue") .shift []),
  .cond (.arm (.capability .isExit [element "current" 0, element "current" 1])
    [.return (some (.call (backName d) [.name (linksName d), .name "current"]))] .done),
  .forEach (.tuple ["nx", "ny", "name"])
    (.call "neighbours" [element "current" 0, element "current" 1]) (enqueue d)]

/-- Searches for a route to the exit. -/
def search : Definition := ⟨searchName d, [], [
  bind d "pos" (.capability .getPosition []),
  bind d "start" (.list [coordinate d "x", coordinate d "y"]),
  bind d "queue" (.list [.name "start"]),
  bind d (linksName d) (.mapOf (.list [.list [.name "start", .literal .null]])),
  .while (.binary .gt (.builtin .len [.name "queue"]) (.literal (.int 0))) (round d),
  .return (some (.list []))]⟩

/-- Follows one link and puts its direction in front of the route. -/
def stepBack : List Stmt := [
  bind d "link" (getLink d),
  .expr (.method (.name "route") .unshift [element "link" 1]),
  goBack d]

/-- Follows the links back to the start and collects the directions. -/
def back : Definition := ⟨backName d, [linksName d, "cell"], [
  bind d "route" (.list []),
  .while (.binary .ne (getLink d) (.literal .null)) (stepBack d),
  .return (some (.name "route"))]⟩

/-- Makes a step. -/
def move (dir : Direction) : List Stmt := [.expr (.capability (.move dir) [])]

/-- Whether a direction has a name. -/
def isNamed (dir : Direction) : Expr := .binary .eq (.name "name") (.literal (.str dir.name))

/-- Makes the step whose direction has a name. -/
def stepOn : List Stmt := [
  .cond (.arm (isNamed .up) (move .up) (.arm (isNamed .down) (move .down)
    (.arm (isNamed .left) (move .left) (.otherwise (move .right)))))]

/-- Makes the steps of a route. -/
def follow : Definition := ⟨"follow", ["route"], [
  .forEach (.single "name") (.name "route") stepOn]⟩

/-- The functions of the program. -/
def definitions : List Definition := [neighbours d, search d, back d, follow]

/-- The comment at the beginning, which only one of the dialects keeps. -/
def comments : Dialect → List Stmt
  | .indented => [
    .comment " Breadth-first search over open cells, then replay the shortest route."]
  | .braced => []

/-- The tree of the program. -/
def tree : List Stmt :=
  comments d ++ (definitions d).map (fun f => .function f.name f.params f.body) ++
    [.expr (.call "follow" [.call (searchName d) []])]

/-! ### Reading -/

set_option maxRecDepth 100000 in
theorem parse_indented :
    Indented.parse (Text.unlines Template.breadthFirstIndented) = .ok (tree .indented) :=
  Indented.parse_unlines 3000 (by decide +kernel)

set_option maxRecDepth 100000 in
theorem parse_braced :
    Braced.parse (Text.unlines Template.breadthFirstBraced) = .ok (tree .braced) :=
  Braced.parse_unlines 3000 (by decide +kernel)

/-- The tree into which the template is read. -/
theorem read_program : (Template.breadthFirst.program d).read = .ok (tree d) :=
  match d with
  | .indented => parse_indented
  | .braced => parse_braced

/-! ### Functions by their names -/

theorem find?_neighbours :
    (definitions d).find? (·.name == "neighbours") = some (neighbours d) := by
  cases d <;> rfl

theorem find?_back :
    (definitions d).find? (·.name == backName d) = some (back d) := by
  cases d <;> rfl

theorem find?_search :
    (definitions d).find? (·.name == searchName d) = some (search d) := by
  cases d <;> rfl

theorem find?_follow :
    (definitions d).find? (·.name == "follow") = some follow := by
  cases d <;> rfl

theorem allDefinitions_tree : Stmt.allDefinitions (tree d) = definitions d := by
  cases d <;> rfl

end BreadthFirst

end Labyrinth
