import Labyrinth.World
import Mathlib.Data.List.Chain

/-!
# Walks

A **walk** through a grid is a sequence of open cells, each of them next to the one before. The
trail of a world is such a walk, because a world changes by steps alone.

## Main results

* `Coord.adjacent_iff`: the cells next to a cell are its neighbours in the four directions.
* `Grid.isOpen_start`: every run begins on an open cell.
* `World.honest_step`: a step keeps the trail a walk from the start to the cursor.
-/

namespace Labyrinth

/-! ### Cells side by side -/

/-- Two cells **side by side**: in the same row or column, and one apart in the other. -/
def Coord.Adjacent (a b : Coord) : Prop :=
  a.column = b.column ∧ (a.row.toNat + 1 = b.row.toNat ∨ b.row.toNat + 1 = a.row.toNat) ∨
    a.row = b.row ∧ (a.column.toNat + 1 = b.column.toNat ∨ b.column.toNat + 1 = a.column.toNat)

theorem Coord.adjacent_of_ints {a b : Coord} {d : Direction}
    (hcolumn : b.columnInt = a.columnInt + d.offset.1) (hrow : b.rowInt = a.rowInt + d.offset.2) :
    a.Adjacent b := by
  simp only [columnInt, rowInt] at hcolumn hrow
  cases d with
  | up | down =>
    simp only [Direction.offset] at hcolumn hrow
    exact .inl ⟨UInt32.toNat_inj.1 (by omega), by omega⟩
  | left | right =>
    simp only [Direction.offset] at hcolumn hrow
    exact .inr ⟨UInt32.toNat_inj.1 (by omega), by omega⟩

theorem Coord.neighbor?_of_ints {a b : Coord} {d : Direction}
    (hcolumn : b.columnInt = a.columnInt + d.offset.1) (hrow : b.rowInt = a.rowInt + d.offset.2) :
    a.neighbor? d = some b := by
  rw [neighbor?, ← hcolumn, ← hrow, ofInt?_toInt]

/-- A step back leads back. -/
theorem Coord.neighbor?_opposite {a b : Coord} {d : Direction} (h : a.neighbor? d = some b) :
    b.neighbor? d.opposite = some a := by
  obtain ⟨hcolumn, hrow⟩ := eq_of_ofInt? h
  refine neighbor?_of_ints ?_ ?_ <;> rw [Direction.offset_opposite]
  · dsimp only
    omega
  · dsimp only
    omega

/-- The cells next to a cell are its neighbours in the four directions. -/
theorem Coord.adjacent_iff {a b : Coord} : a.Adjacent b ↔ ∃ d, a.neighbor? d = some b := by
  constructor
  · rintro (⟨hcolumn, hrow | hrow⟩ | ⟨hrow, hcolumn | hcolumn⟩)
    · exact ⟨.down, neighbor?_of_ints (by simp [columnInt, Direction.offset, hcolumn])
        (by simp only [rowInt, Direction.offset]; omega)⟩
    · exact ⟨.up, neighbor?_of_ints (by simp [columnInt, Direction.offset, hcolumn])
        (by simp only [rowInt, Direction.offset]; omega)⟩
    · exact ⟨.right, neighbor?_of_ints (by simp only [columnInt, Direction.offset]; omega)
        (by simp [rowInt, Direction.offset, hrow])⟩
    · exact ⟨.left, neighbor?_of_ints (by simp only [columnInt, Direction.offset]; omega)
        (by simp [rowInt, Direction.offset, hrow])⟩
  · rintro ⟨d, h⟩
    obtain ⟨hcolumn, hrow⟩ := eq_of_ofInt? h
    exact adjacent_of_ints hcolumn hrow

theorem Coord.Adjacent.symm {a b : Coord} (h : a.Adjacent b) : b.Adjacent a := by
  rcases h with ⟨hcolumn, hrow⟩ | ⟨hrow, hcolumn⟩
  · exact .inl ⟨hcolumn.symm, hrow.symm⟩
  · exact .inr ⟨hrow.symm, hcolumn.symm⟩

theorem Coord.Adjacent.ne {a b : Coord} (h : a.Adjacent b) : a ≠ b := by
  rintro rfl
  rcases h with ⟨-, hrow⟩ | ⟨-, hcolumn⟩
  · omega
  · omega

namespace Grid

/-! ### Open cells -/

/-- A cell **inside** the square. -/
def Contains (g : Grid) (c : Coord) : Prop := c.column < g.size ∧ c.row < g.size

/-- An **open** cell of the square. -/
def IsOpen (g : Grid) (c : Coord) : Prop := g.Contains c ∧ g.isWall c = false

theorem contains_of_kind? {g : Grid} {c : Coord} {kind : Kind} (h : g.kind? c = some kind) :
    g.Contains c := by
  unfold kind? at h
  split at h
  · assumption
  · cases h

/-- Everything that is no wall lies inside the square. -/
theorem isOpen_iff {g : Grid} {c : Coord} : g.IsOpen c ↔ g.isWall c = false := by
  refine ⟨And.right, fun h => ⟨?_, h⟩⟩
  cases hkind : g.kind? c with
  | none => rw [isWall_of_kind?_eq_none hkind] at h; cases h
  | some kind => exact contains_of_kind? hkind

theorem isOpen_of_kind? {g : Grid} {c : Coord} {kind : Kind} (h : g.kind? c = some kind)
    (hopen : kind.isOpen = true) : g.IsOpen c := by
  rw [isOpen_iff, isWall, h]
  simp [hopen]

/-- The cells are found by their positions in row-major order. -/
theorem kind?_coordAt (g : Grid) {i : Nat} (hi : i < g.cells.size) :
    g.kind? (coordAt g.size.toNat i) = g.cells[i]? := by
  have hsize := g.size.toNat_lt
  have hcells := hi
  rw [g.size_cells] at hcells
  have hpos : 0 < g.size.toNat := Nat.pos_of_mul_pos_left (Nat.zero_lt_of_lt hcells)
  have hcolumn : i % g.size.toNat < g.size.toNat := Nat.mod_lt _ hpos
  have hrow : i / g.size.toNat < g.size.toNat := Nat.div_lt_of_lt_mul hcells
  have hcolumn' : (UInt32.ofNat (i % g.size.toNat)).toNat = i % g.size.toNat :=
    UInt32.toNat_ofNat_of_lt' (hcolumn.trans hsize)
  have hrow' : (UInt32.ofNat (i / g.size.toNat)).toNat = i / g.size.toNat :=
    UInt32.toNat_ofNat_of_lt' (hrow.trans hsize)
  have hindex : i / g.size.toNat * g.size.toNat + i % g.size.toNat = i := by
    rw [Nat.mul_comm]
    exact Nat.div_add_mod i _
  simp only [kind?, coordAt, UInt32.lt_iff_toNat_lt, hcolumn', hrow', hcolumn, hrow, and_self,
    if_true, hindex]

theorem coordAt_mul_add {side row column : ℕ} (h : column < side) :
    coordAt side (row * side + column) = ⟨.ofNat column, .ofNat row⟩ := by
  rw [coordAt, Nat.mul_add_mod_of_lt h, Nat.mul_comm, Nat.mul_add_div (Nat.zero_lt_of_lt h),
    Nat.div_eq_of_lt h, Nat.add_zero]

theorem coordAt_index {g : Grid} {c : Coord} (h : g.Contains c) :
    coordAt g.size.toNat (c.row.toNat * g.size.toNat + c.column.toNat) = c := by
  rw [coordAt_mul_add (UInt32.lt_iff_toNat_lt.1 h.1), UInt32.ofNat_toNat, UInt32.ofNat_toNat]

/-- The cells of a kind are those that are located. -/
theorem mem_locate {g : Grid} {kind : Kind} {c : Coord} :
    c ∈ locate g.size.toNat g.cells kind ↔ g.kind? c = some kind := by
  simp only [locate, List.mem_map, List.mem_filter, List.mem_range, beq_iff_eq]
  constructor
  · rintro ⟨i, ⟨hi, hkind⟩, rfl⟩
    rw [kind?_coordAt g hi, hkind]
  · intro hkind
    have hin : c.column < g.size ∧ c.row < g.size := contains_of_kind? hkind
    rw [kind?, if_pos hin] at hkind
    obtain ⟨hi, -⟩ := Array.getElem?_eq_some_iff.1 hkind
    exact ⟨_, ⟨hi, hkind⟩, coordAt_index hin⟩

theorem kind?_eq_iff_of_locate {g : Grid} {kind : Kind} {a : Coord}
    (h : locate g.size.toNat g.cells kind = [a]) (c : Coord) : g.kind? c = some kind ↔ c = a := by
  rw [← mem_locate, h, List.mem_singleton]

/-- There is exactly one start. -/
theorem kind?_eq_start_iff {g : Grid} {c : Coord} : g.kind? c = some .start ↔ c = g.start :=
  kind?_eq_iff_of_locate g.locate_start c

/-- There is exactly one exit. -/
theorem kind?_eq_exit_iff {g : Grid} {c : Coord} : g.kind? c = some .exit ↔ c = g.exit :=
  kind?_eq_iff_of_locate g.locate_exit c

/-- Every run begins on an open cell. -/
theorem isOpen_start (g : Grid) : g.IsOpen g.start :=
  isOpen_of_kind? (kind?_eq_start_iff.2 rfl) rfl

theorem isOpen_exit (g : Grid) : g.IsOpen g.exit :=
  isOpen_of_kind? (kind?_eq_exit_iff.2 rfl) rfl

/-! ### Walks through a grid -/

/-- A **walk** from one cell to another one: open cells, each next to the one before. -/
structure IsWalk (g : Grid) (a b : Coord) (cells : List Coord) : Prop where
  head : cells.head? = some a
  last : cells.getLast? = some b
  adjacent : cells.IsChain Coord.Adjacent
  isOpen : ∀ c ∈ cells, g.IsOpen c

/-- Two cells between which there is a walk. -/
def Joined (g : Grid) (a b : Coord) : Prop := ∃ cells, g.IsWalk a b cells

theorem isWalk_singleton {g : Grid} {a : Coord} (h : g.IsOpen a) : g.IsWalk a a [a] :=
  ⟨rfl, rfl, .singleton a, List.forall_mem_singleton.2 h⟩

/-- A walk that goes on to one more cell. -/
theorem IsWalk.concat {g : Grid} {a b c : Coord} {cells : List Coord} (h : g.IsWalk a b cells)
    (hadjacent : b.Adjacent c) (hopen : g.IsOpen c) : g.IsWalk a c (cells ++ [c]) where
  head := by rw [List.head?_append, h.head]; rfl
  last := List.getLast?_concat
  adjacent := by
    refine List.isChain_append.2 ⟨h.adjacent, .singleton c, ?_⟩
    intro x hx y hy
    rw [h.last, Option.mem_some_iff] at hx
    rw [List.head?_cons, Option.mem_some_iff] at hy
    exact hx ▸ hy ▸ hadjacent
  isOpen := by
    intro x hx
    rcases List.mem_append.1 hx with hx | hx
    · exact h.isOpen x hx
    · exact List.mem_singleton.1 hx ▸ hopen

end Grid

/-! ### Trails -/

namespace World

/-- The trail of an **honest** world is a walk from the start to the cursor. -/
def Honest (w : World) : Prop := w.grid.IsWalk w.grid.start w.cursor w.trail.toList

theorem honest_new (g : Grid) : (new g).Honest := Grid.isWalk_singleton g.isOpen_start

theorem honest_reset (w : World) : w.reset.Honest := honest_new w.grid

theorem grid_step (w : World) (d : Direction) : (w.step d).2.grid = w.grid := by
  grind [step, enter]

/-- A step keeps the trail a walk from the start to the cursor. -/
theorem honest_step {w : World} (h : w.Honest) (d : Direction) : (w.step d).2.Honest := by
  cases hstep : w.step d with
  | mk move w' =>
    cases move with
    | blocked cell =>
      obtain ⟨-, rfl⟩ := step_blocked hstep
      exact h
    | moved origin target =>
      obtain ⟨-, hneighbor, hwall, rfl⟩ := step_moved hstep
      rw [Honest, enter, Array.toList_push]
      exact Grid.IsWalk.concat h (Coord.adjacent_iff.2 ⟨d, hneighbor⟩) (Grid.isOpen_iff.2 hwall)

end World

end Labyrinth
