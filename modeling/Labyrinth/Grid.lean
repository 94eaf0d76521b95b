import Labyrinth.Coord
import Labyrinth.Text.Lines

/-!
# Grids

A **grid** is a square maze: a side length and one kind of cell for every position in
row-major order. The type records that there is exactly one start and exactly one exit, so
whoever holds a grid may rely on both.

## Main results

* `Grid.ofKinds` and `Grid.ofRows` refuse every description that is not such a square, with
  the first cause found.
* `Grid.isWall_of_kind?_eq_none`: everything outside the square counts as a wall.
-/

namespace Labyrinth

/-- What a cell is. -/
inductive Kind
  /-- The cursor may not enter. -/
  | wall
  /-- A corridor. -/
  | empty
  /-- The open cell where every run begins. -/
  | start
  /-- The open cell that a run has to reach. -/
  | exit
  deriving DecidableEq, Repr

namespace Kind

/-- Whether the cursor may stand on the cell. -/
def isOpen : Kind → Bool
  | wall => false
  | _ => true

/-- The character that stands for a kind of cell. -/
def glyph : Kind → Char
  | wall => '#'
  | empty => '.'
  | start => 'S'
  | exit => 'E'

/-- The kind written by a character; a blank is a corridor too. -/
def ofGlyph? : Char → Option Kind
  | '#' => some wall
  | '.' => some empty
  | ' ' => some empty
  | 'S' => some start
  | 'E' => some exit
  | _ => none

theorem ofGlyph?_glyph (k : Kind) : ofGlyph? k.glyph = some k := by
  cases k <;> rfl

end Kind

/-- Why a description is not a grid. -/
inductive GridError
  /-- There are no rows. -/
  | noRows
  /-- A row is not as long as there are rows. -/
  | notSquare (row found expected : Nat)
  /-- A character stands for no kind of cell. -/
  | unknownGlyph (glyph : Char) (cell : Coord)
  /-- There are more or fewer cells than the side length asks for. -/
  | cellCount (expected found : Nat)
  /-- There is not exactly one start. -/
  | startCount (found : Nat)
  /-- There is not exactly one exit. -/
  | exitCount (found : Nat)
  deriving DecidableEq, Repr

/-- The explanation shown for a refused grid. -/
def GridError.message : GridError → String
  | noRows => "grid has no rows"
  | notSquare row found expected =>
    s!"grid is not square: row {row} has {found} cells, expected {expected}"
  | unknownGlyph glyph cell => s!"unknown cell glyph '{glyph}' at {cell}"
  | cellCount expected found => s!"expected {expected} cells, found {found}"
  | startCount found => s!"grid must contain exactly one start cell, found {found}"
  | exitCount found => s!"grid must contain exactly one end cell, found {found}"

namespace Grid

/-- The coordinate of the `index`-th cell of a square with side `side`. -/
def coordAt (side index : Nat) : Coord :=
  ⟨UInt32.ofNat (index % side), UInt32.ofNat (index / side)⟩

/-- The coordinates of all cells of one kind, in row-major order. -/
def locate (side : Nat) (cells : Array Kind) (kind : Kind) : List Coord :=
  ((List.range cells.size).filter fun i => cells[i]? == some kind).map (coordAt side)

end Grid

/-- A square maze with exactly one start and exactly one exit. -/
structure Grid where
  /-- The number of columns, which is also the number of rows. -/
  size : UInt32
  /-- The cells in row-major order. -/
  cells : Array Kind
  /-- The cell where every run begins. -/
  start : Coord
  /-- The cell that a run has to reach. -/
  exit : Coord
  size_cells : cells.size = size.toNat * size.toNat
  locate_start : Grid.locate size.toNat cells .start = [start]
  locate_exit : Grid.locate size.toNat cells .exit = [exit]

namespace Grid

/-- The grid made of the given cells in row-major order. -/
def ofKinds (size : UInt32) (cells : Array Kind) : Except GridError Grid :=
  if hc : cells.size = size.toNat * size.toNat then
    match hs : locate size.toNat cells .start with
    | [start] =>
      match he : locate size.toNat cells .exit with
      | [exit] => .ok ⟨size, cells, start, exit, hc, hs, he⟩
      | exits => .error (.exitCount exits.length)
    | starts => .error (.startCount starts.length)
  else
    .error (.cellCount (size.toNat * size.toNat) cells.size)

/-- The kinds written by the characters of one row, of which `column` have been read. -/
def readRow (row : Nat) : Nat → List Char → Except GridError (List Kind)
  | _, [] => .ok []
  | column, c :: rest =>
    match Kind.ofGlyph? c with
    | some kind => return kind :: (← readRow row (column + 1) rest)
    | none => .error (.unknownGlyph c ⟨UInt32.ofNat column, UInt32.ofNat row⟩)

/-- The kinds written by rows of `side` characters each, of which `row` have been read. -/
def readRows (side : Nat) : Nat → List String → Except GridError (List Kind)
  | _, [] => .ok []
  | row, text :: rest =>
    let glyphs := text.toList
    if glyphs.length = side then do
      let kinds ← readRow row 0 glyphs
      return kinds ++ (← readRows side (row + 1) rest)
    else
      .error (.notSquare row glyphs.length side)

/-- The grid written by rows of characters. -/
def ofRows (rows : List String) : Except GridError Grid :=
  if rows.isEmpty then
    .error .noRows
  else do
    let kinds ← readRows rows.length 0 rows
    ofKinds (UInt32.ofNat (min rows.length 4294967295)) kinds.toArray

/-- The kind of a cell, or `none` outside the square. -/
def kind? (g : Grid) (c : Coord) : Option Kind :=
  if c.column < g.size ∧ c.row < g.size then
    g.cells[c.row.toNat * g.size.toNat + c.column.toNat]?
  else
    none

/-- Whether the cursor may not enter a cell. Cells outside the square are walls. -/
def isWall (g : Grid) (c : Coord) : Bool :=
  match g.kind? c with
  | some kind => !kind.isOpen
  | none => true

/-- Every cell with its coordinate, in row-major order. -/
def entries (g : Grid) : List (Coord × Kind) :=
  g.cells.toList.zipIdx.map fun (kind, i) => (coordAt g.size.toNat i, kind)

/-- The rows of the square drawn with one character a cell. -/
def draw (g : Grid) (glyph : Coord → Kind → Char) : List String :=
  (List.range g.size.toNat).map fun row =>
    String.ofList <| (List.range g.size.toNat).map fun column =>
      let i := row * g.size.toNat + column
      glyph (coordAt g.size.toNat i) (g.cells[i]?.getD .wall)

/-- The written rows of the grid. -/
def rows (g : Grid) : List String := g.draw fun _ kind => kind.glyph

/-- The written grid: its rows, each ended by a line feed. -/
def text (g : Grid) : String := Text.unlines g.rows

theorem isWall_of_kind?_eq_none {g : Grid} {c : Coord} (h : g.kind? c = none) :
    g.isWall c = true := by
  simp [isWall, h]

end Grid

end Labyrinth
