import Labyrinth.Counter
import Labyrinth.Grid

/-!
# The world of a run

A **world** is a grid together with the state of the run in it: where the cursor stands, the
trail of cells it has stood on, and how often it has moved. Programs reach a world only
through `World.position`, `World.isWall`, `World.isExit` and `World.step`.

## Main results

* `World.step_blocked`: a blocked step changes nothing.
* `World.step_moved`: a move enters an open cell next to the cursor and adds it to the trail.
-/

namespace Labyrinth

/-- A grid and the state of the run in it. -/
structure World where
  /-- The maze. -/
  grid : Grid
  /-- Where the cursor stands. -/
  cursor : Coord
  /-- The cells the cursor has stood on, in order, from the start on. -/
  trail : Array Coord
  /-- The number of moves made, which stops growing at `4294967295`. -/
  moves : UInt32

/-- What became of an attempt to step. -/
inductive Move
  /-- The cursor went from one cell to the next. -/
  | moved (origin target : Coord)
  /-- A wall or the edge of the plane stood in the way of the cursor. -/
  | blocked (cell : Coord)
  deriving DecidableEq, Repr

namespace World

/-- A world whose run has not begun. -/
def new (grid : Grid) : World := ⟨grid, grid.start, #[grid.start], 0⟩

/-- Brings the cursor back to the start and forgets the run. -/
def reset (w : World) : World := new w.grid

/-- Puts another maze into place and forgets the run. -/
def replace (_ : World) (grid : Grid) : World := new grid

/-- Whether the cursor stands on the exit. -/
def atExit (w : World) : Bool := w.cursor == w.grid.exit

/-- Where the cursor stands. -/
def position (w : World) : Coord := w.cursor

/-- Whether the cell at signed coordinates is a wall or lies outside the maze. -/
def isWall (w : World) (column row : Int) : Bool :=
  match Coord.ofInt? column row with
  | some cell => w.grid.isWall cell
  | none => true

/-- Whether the cell at signed coordinates is the exit. -/
def isExit (w : World) (column row : Int) : Bool :=
  match Coord.ofInt? column row with
  | some cell => cell == w.grid.exit
  | none => false

/-- Puts the cursor onto a cell and records the move. -/
def enter (w : World) (cell : Coord) : World :=
  { w with cursor := cell, trail := w.trail.push cell, moves := saturatingSucc w.moves }

/-- Tries to move the cursor by one cell. -/
def step (w : World) (d : Direction) : Move × World :=
  match w.cursor.neighbor? d with
  | some cell =>
    if w.grid.isWall cell then (.blocked w.cursor, w)
    else (.moved w.cursor cell, w.enter cell)
  | none => (.blocked w.cursor, w)

theorem step_blocked {w w' : World} {d : Direction} {cell : Coord}
    (h : w.step d = (.blocked cell, w')) : cell = w.cursor ∧ w' = w := by
  grind [step]

theorem step_moved {w w' : World} {d : Direction} {origin target : Coord}
    (h : w.step d = (.moved origin target, w')) :
    origin = w.cursor ∧ w.cursor.neighbor? d = some target ∧
      w.grid.isWall target = false ∧ w' = w.enter target := by
  grind [step]

end World

end Labyrinth
