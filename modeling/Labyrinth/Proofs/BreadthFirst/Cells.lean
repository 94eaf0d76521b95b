import Labyrinth.Machine.Operators
import Labyrinth.Proofs.BreadthFirst.Ways
import Labyrinth.Proofs.Machine.Heaps

/-!
# Cells as values

A program knows a cell as a list of its two coordinates. As a key of a map such a list stands for
the cell alone, whichever list it is.

## Main results

* `Coord.key_injective`: different cells have different keys.
* `World.isWall_xTo_yTo`: a program that looks in a direction sees whether there is an opening.
-/

namespace Labyrinth

namespace Coord

/-- The column of a cell as an integer of a program. -/
def x (c : Coord) : Int64 := Int64.ofNat c.column.toNat

/-- The row of a cell as an integer of a program. -/
def y (c : Coord) : Int64 := Int64.ofNat c.row.toNat

/-- The elements of a list that stands for a cell. -/
def items (c : Coord) : Array Value := #[.int c.x, .int c.y]

/-- The key of a list that stands for a cell. -/
def key (c : Coord) : Key := .list [.int c.x, .int c.y]

theorem toInt_ofNat_toNat (n : UInt32) : (Int64.ofNat n.toNat).toInt = n.toNat :=
  Int64.toInt_ofNat_of_lt (n.toNat_lt.trans (by decide))

theorem toInt_x (c : Coord) : c.x.toInt = c.columnInt := toInt_ofNat_toNat c.column

theorem toInt_y (c : Coord) : c.y.toInt = c.rowInt := toInt_ofNat_toNat c.row

theorem ofInt?_x_y (c : Coord) : ofInt? c.x.toInt c.y.toInt = some c := by
  rw [toInt_x, toInt_y, ofInt?_toInt]

/-- Different cells have different keys. -/
theorem key_injective : Function.Injective key := by
  intro a b h
  obtain ⟨hx, hy⟩ : a.x = b.x ∧ a.y = b.y := by simpa [key] using h
  have hab := ofInt?_x_y a
  rw [hx, hy, ofInt?_x_y b] at hab
  exact (Option.some.inj hab).symm

/-! ### Steps -/

/-- The column next to a cell in a direction, which may lie outside every grid. -/
def xTo (c : Coord) (d : Direction) : Int64 := Int64.ofInt (c.columnInt + d.offset.1)

/-- The row next to a cell in a direction, which may lie outside every grid. -/
def yTo (c : Coord) (d : Direction) : Int64 := Int64.ofInt (c.rowInt + d.offset.2)

theorem toInt_xTo (c : Coord) (d : Direction) : (c.xTo d).toInt = c.columnInt + d.offset.1 := by
  have hlt := c.column.toNat_lt
  refine Int64.toInt_ofInt_of_le ?_ ?_ <;> cases d <;>
    simp only [columnInt, Direction.offset] <;> omega

theorem toInt_yTo (c : Coord) (d : Direction) : (c.yTo d).toInt = c.rowInt + d.offset.2 := by
  have hlt := c.row.toNat_lt
  refine Int64.toInt_ofInt_of_le ?_ ?_ <;> cases d <;>
    simp only [rowInt, Direction.offset] <;> omega

/-- A coordinate does not overflow by a step. -/
theorem checked_add_x (c : Coord) (d : Direction) :
    Integer.checked (c.x.toInt + (Int64.ofInt d.offset.1).toInt) = .ok (c.xTo d) := by
  have hoffset : (Int64.ofInt d.offset.1).toInt = d.offset.1 := by cases d <;> decide
  rw [Integer.checked_eq_ok_iff, toInt_xTo, toInt_x, hoffset]

theorem checked_add_y (c : Coord) (d : Direction) :
    Integer.checked (c.y.toInt + (Int64.ofInt d.offset.2).toInt) = .ok (c.yTo d) := by
  have hoffset : (Int64.ofInt d.offset.2).toInt = d.offset.2 := by cases d <;> decide
  rw [Integer.checked_eq_ok_iff, toInt_yTo, toInt_y, hoffset]

/-- The coordinates next to a cell are those of its neighbour. -/
theorem xTo_yTo_of_neighbor? {c c' : Coord} {d : Direction} (h : c.neighbor? d = some c') :
    c.xTo d = c'.x ∧ c.yTo d = c'.y := by
  obtain ⟨hcolumn, hrow⟩ := eq_of_ofInt? h
  rw [← Int64.toInt_inj, ← Int64.toInt_inj, toInt_xTo, toInt_yTo, toInt_x, toInt_y]
  exact ⟨hcolumn.symm, hrow.symm⟩

end Coord

namespace World

variable {w : World} {c : Coord}

/-- A program that looks in a direction sees whether there is an opening. -/
theorem isWall_xTo_yTo (d : Direction) :
    w.isWall (c.xTo d).toInt (c.yTo d).toInt = (w.grid.opening? c d).isNone := by
  have hneighbor : Coord.ofInt? (c.xTo d).toInt (c.yTo d).toInt = c.neighbor? d := by
    rw [Coord.toInt_xTo, Coord.toInt_yTo, Coord.neighbor?]
  rw [isWall, hneighbor, Grid.opening?]
  cases c.neighbor? d with
  | none => rfl
  | some c' => cases hwall : w.grid.isWall c' <;> simp [hwall]

theorem isExit_x_y : w.isExit c.x.toInt c.y.toInt = (c == w.grid.exit) := by
  rw [isExit, Coord.ofInt?_x_y]

end World

namespace Heap

variable {h : Heap} {a : Nat} {c : Coord}

/-- A list that stands for a cell has the key of the cell. -/
theorem key_of_items (ha : h.list a = c.items) : h.key (.list a) = .ok c.key := by
  rw [key, maxDepth, keyWithin, ha]
  rfl

theorem loadIndex_x (ha : h.list a = c.items) : h.loadIndex (.list a) (.int 0) = .ok (.int c.x) :=
  loadIndex_list (n := 0) (by decide) (by rw [ha]; rfl)

theorem loadIndex_y (ha : h.list a = c.items) : h.loadIndex (.list a) (.int 1) = .ok (.int c.y) :=
  loadIndex_list (n := 1) (by decide) (by rw [ha]; rfl)

end Heap

end Labyrinth
