import Labyrinth.Direction

/-!
# Cell coordinates

A **coordinate** names a cell by its column and its row, both 32-bit words counted from the
top left corner. Programs speak of coordinates as signed integers; `Coord.ofInt?` is the one
place where those are turned into cells.

## Main results

* `Coord.ofInt?_toInt`: a coordinate is recovered from its own integers.
* `Coord.eq_of_ofInt?`: the integers of a recovered coordinate are the given ones.
-/

namespace Labyrinth

/-- The location of a cell. -/
structure Coord where
  /-- Columns counted from the left edge. -/
  column : UInt32
  /-- Rows counted from the top edge. -/
  row : UInt32
  deriving DecidableEq, Repr, Hashable

namespace Coord

/-- The number of distinct columns, and of distinct rows. -/
def extent : Int := 4294967296

/-- The column as an integer. -/
def columnInt (c : Coord) : Int := c.column.toNat

/-- The row as an integer. -/
def rowInt (c : Coord) : Int := c.row.toNat

/-- The cell at signed coordinates, if both fit into a word. -/
def ofInt? (column row : Int) : Option Coord :=
  if 0 ≤ column ∧ column < extent ∧ 0 ≤ row ∧ row < extent then
    some ⟨UInt32.ofNat column.toNat, UInt32.ofNat row.toNat⟩
  else
    none

/-- The adjacent cell in direction `d`, if its coordinates fit into a word. -/
def neighbor? (c : Coord) (d : Direction) : Option Coord :=
  ofInt? (c.columnInt + d.offset.1) (c.rowInt + d.offset.2)

/-- The distance between two words. -/
def gap (a b : UInt32) : UInt32 := if a < b then b - a else a - b

/-- The number of steps between two cells on an open plane. The sum is a word, so cells more
than `4294967295` steps apart have their distance reduced modulo `4294967296`. -/
def distance (a b : Coord) : UInt32 := gap a.column b.column + gap a.row b.row

/-- Orders cells by column first and by row second. -/
def order (a b : Coord) : Ordering :=
  (compare a.column b.column).then (compare a.row b.row)

/-- The written form `(column, row)`. -/
def text (c : Coord) : String := s!"({c.column}, {c.row})"

instance : ToString Coord := ⟨text⟩

theorem ofInt?_toInt (c : Coord) : ofInt? c.columnInt c.rowInt = some c := by
  have hc := c.column.toNat_lt
  have hr := c.row.toNat_lt
  have h : 0 ≤ c.columnInt ∧ c.columnInt < extent ∧ 0 ≤ c.rowInt ∧ c.rowInt < extent := by
    simp only [columnInt, rowInt, extent]
    omega
  rw [ofInt?, if_pos h]
  simp [columnInt, rowInt]

theorem eq_of_ofInt? {column row : Int} {c : Coord} (h : ofInt? column row = some c) :
    c.columnInt = column ∧ c.rowInt = row := by
  unfold ofInt? at h
  split at h
  · rename_i hin
    obtain rfl := Option.some.inj h
    simp only [extent] at hin
    simp only [columnInt, rowInt, UInt32.toNat_ofNat']
    omega
  · exact absurd h (by simp)

end Coord

end Labyrinth
