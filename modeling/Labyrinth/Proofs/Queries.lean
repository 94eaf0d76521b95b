import Labyrinth.Proofs.Grids
import Labyrinth.Proofs.Trails

/-!
# Questions and steps

A program that plans ahead asks about cells by signed coordinates, while a step leads from the
cursor's cell to one next to it. Both speak of the same cells, wherever the coordinates lie: beside
the square, beyond the last cell that has coordinates at all, or below zero. So a program that has
asked about the cell ahead knows what a step will do.

## Main results

* `World.isWall_eq_false_iff`, `World.isExit_iff`: which coordinates are those of an open cell, and
  which are those of the exit.
* `World.step_of_isWallAhead`, `World.step_of_not_isWallAhead`: a step does what was foretold.
* `World.foretells_changeAll`: questions foretell steps in every world that is used.
-/

namespace Labyrinth

/-! ### Signed coordinates -/

/-- A cell is found by its own integers only. -/
theorem Coord.ofInt?_eq_some_iff {column row : ℤ} {c : Coord} :
    ofInt? column row = some c ↔ c.columnInt = column ∧ c.rowInt = row := by
  constructor
  · exact eq_of_ofInt?
  · rintro ⟨rfl, rfl⟩
    exact c.ofInt?_toInt

theorem Grid.isWall_eq_false_iff {g : Grid} {c : Coord} :
    g.isWall c = false ↔ g.Contains c ∧ g.kind? c ≠ some .wall := by
  rw [← Bool.not_eq_true, isWall_iff, not_or, not_not, and_comm]

namespace World

variable {w : World} {column row : ℤ}

/-- Everything is a wall but the open cells of the square. -/
theorem isWall_eq_false_iff :
    w.isWall column row = false ↔
      ∃ c : Coord, (c.columnInt = column ∧ c.rowInt = row) ∧ w.grid.isWall c = false := by
  simp only [← Coord.ofInt?_eq_some_iff]
  rw [isWall]
  cases Coord.ofInt? column row with
  | none => simp
  | some cell => simp

theorem isWall_eq_true_iff :
    w.isWall column row = true ↔
      ¬∃ c : Coord, (c.columnInt = column ∧ c.rowInt = row) ∧
        w.grid.Contains c ∧ w.grid.kind? c ≠ some .wall := by
  simp only [← Grid.isWall_eq_false_iff]
  rw [← isWall_eq_false_iff, Bool.not_eq_false]

/-- The integers of the exit are the only ones at which it is found. -/
theorem isExit_iff :
    w.isExit column row = true ↔ w.grid.exit.columnInt = column ∧ w.grid.exit.rowInt = row := by
  rw [← Coord.ofInt?_eq_some_iff, isExit]
  cases Coord.ofInt? column row with
  | none => simp
  | some cell => simp

/-! ### Looking ahead -/

/-- What a program is told about the cell **ahead** of the cursor in a direction. -/
def isWallAhead (w : World) (d : Direction) : Bool :=
  w.isWall (w.cursor.columnInt + d.offset.1) (w.cursor.rowInt + d.offset.2)

variable {d : Direction}

/-- A step towards a wall leaves everything as it is. -/
theorem step_of_isWallAhead (h : w.isWallAhead d = true) : w.step d = (.blocked w.cursor, w) := by
  rw [isWallAhead, isWall, ← Coord.neighbor?] at h
  rw [step]
  cases hneighbor : w.cursor.neighbor? d with
  | none => rfl
  | some cell =>
    rw [hneighbor] at h
    exact if_pos h

/-- A step to an open cell is made. -/
theorem step_of_neighbor? {target : Coord} (hneighbor : w.cursor.neighbor? d = some target)
    (hopen : w.grid.isWall target = false) :
    w.step d = (.moved w.cursor target, w.enter target) := by
  rw [step, hneighbor]
  exact if_neg (Bool.not_eq_true _ ▸ hopen)

/-- A step where there is no wall leads to the cell ahead. -/
theorem step_of_not_isWallAhead (h : w.isWallAhead d = false) :
    ∃ target, w.cursor.neighbor? d = some target ∧
      w.step d = (.moved w.cursor target, w.enter target) := by
  obtain ⟨target, hints, hopen⟩ := isWall_eq_false_iff.1 h
  have hneighbor : w.cursor.neighbor? d = some target := Coord.ofInt?_eq_some_iff.2 hints
  exact ⟨target, hneighbor, step_of_neighbor? hneighbor hopen⟩

/-- From the cell ahead, a step in the opposite direction leads back to the cell where the cursor
stood, which is open. -/
theorem step_opposite_enter {target : Coord} (hopen : w.grid.IsOpen w.cursor)
    (hneighbor : w.cursor.neighbor? d = some target) :
    (w.enter target).step d.opposite =
      (.moved target w.cursor, (w.enter target).enter w.cursor) :=
  step_of_neighbor? (w := w.enter target) (Coord.neighbor?_opposite hneighbor) hopen.2

/-- The cursor of an honest world stands on an open cell. -/
theorem Honest.isOpen_cursor (h : w.Honest) : w.grid.IsOpen w.cursor :=
  h.isOpen _ (List.mem_of_getLast? h.last)

/-- The questions that a program asks **foretell** its steps: it is stopped where it is told that
there is a wall, and otherwise comes to the cell it has asked about, and from there back again; and
it is told the truth about walls and about the exit wherever it asks. -/
structure Foretells (w : World) : Prop where
  blocked_iff : ∀ d, (∃ cell, (w.step d).1 = .blocked cell) ↔ w.isWallAhead d = true
  moved : ∀ d, w.isWallAhead d = false → ∃ target : Coord,
    (target.columnInt = w.cursor.columnInt + d.offset.1 ∧
      target.rowInt = w.cursor.rowInt + d.offset.2) ∧
    (w.step d).1 = .moved w.cursor target ∧ (w.step d).2.cursor = target ∧
    ((w.step d).2.step d.opposite).1 = .moved target w.cursor ∧
    ((w.step d).2.step d.opposite).2.cursor = w.cursor
  isWall_iff : ∀ column row : ℤ, w.isWall column row = true ↔
    ¬∃ c : Coord, (c.columnInt = column ∧ c.rowInt = row) ∧
      w.grid.Contains c ∧ w.grid.kind? c ≠ some .wall
  isExit_iff : ∀ column row : ℤ, w.isExit column row = true ↔
    w.grid.exit.columnInt = column ∧ w.grid.exit.rowInt = row

theorem foretells_of_honest (h : w.Honest) : w.Foretells where
  blocked_iff d := by
    constructor
    · rintro ⟨cell, hblocked⟩
      by_contra hwall
      obtain ⟨target, -, hstep⟩ := step_of_not_isWallAhead (Bool.not_eq_true _ ▸ hwall)
      rw [hstep] at hblocked
      cases hblocked
    · exact fun hwall => ⟨w.cursor, congrArg Prod.fst (step_of_isWallAhead hwall)⟩
  moved d hwall := by
    obtain ⟨target, hneighbor, hstep⟩ := step_of_not_isWallAhead hwall
    refine ⟨target, Coord.eq_of_ofInt? hneighbor, ?_⟩
    rw [hstep, step_opposite_enter h.isOpen_cursor hneighbor]
    exact ⟨rfl, rfl, rfl, rfl⟩
  isWall_iff _ _ := isWall_eq_true_iff
  isExit_iff _ _ := isExit_iff

/-- However a world is used, questions foretell steps. -/
theorem foretells_changeAll (g : Grid) (changes : List Change) :
    ((new g).changeAll changes).Foretells :=
  foretells_of_honest (honest_counted_changeAll (honest_new g) (counted_new g) changes).1

end World

end Labyrinth
