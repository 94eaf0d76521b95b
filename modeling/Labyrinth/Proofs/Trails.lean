import Labyrinth.Proofs.Distances

/-!
# Worlds in use

The owner of a world can let the cursor try a step, bring it back to the start, and put another
maze into place. Whatever is done in whatever order, the trail, the cursor and the number of moves
fit each other and the maze that is in place.

## Main results

* `World.grid_changeAll`: the maze in place is the one that was put there last.
* `World.honest_counted_change`: what every change preserves.
* `World.inOrder_changeAll`: a world that is used is in order.
-/

namespace Labyrinth

namespace World

/-- What the owner of a world can do to it. -/
inductive Change
  /-- The cursor tries a step. -/
  | step (d : Direction)
  /-- The cursor is brought back to the start. -/
  | reset
  /-- Another maze is put into place. -/
  | replace (grid : Grid)

/-- The maze that a change puts into place. -/
def Change.grid? : Change → Option Grid
  | replace grid => some grid
  | _ => none

/-- The world after a change. -/
def change (w : World) : Change → World
  | .step d => (w.step d).2
  | .reset => w.reset
  | .replace grid => w.replace grid

/-- The world after several changes, one after the other. -/
def changeAll (w : World) (changes : List Change) : World := changes.foldl change w

/-- A world is **in order** if its trail is a walk without gaps from the start to the cursor, its
moves are counted, a blocked step leaves it as it is, and the cursor stands on the exit exactly if
a program that asks about the cursor's coordinates is told so. -/
structure InOrder (w : World) : Prop where
  head : w.trail.toList.head? = some w.grid.start
  last : w.trail.toList.getLast? = some w.cursor
  inside : ∀ c ∈ w.trail.toList, w.grid.Contains c
  noWall : ∀ c ∈ w.trail.toList, w.grid.isWall c = false
  gapless : w.trail.toList.IsChain fun a b => a.distance b = 1
  moves : w.moves.toNat = min (w.trail.size - 1) 4294967295
  blocked : ∀ d cell w', w.step d = (.blocked cell, w') → w' = w
  atExit : w.atExit = true ↔ w.isExit w.cursor.columnInt w.cursor.rowInt = true

theorem grid_change (w : World) (c : Change) : (w.change c).grid = c.grid?.getD w.grid := by
  cases c with
  | step d => exact w.grid_step d
  | reset => rfl
  | replace grid => rfl

/-- The maze in place is the one that was put there last. -/
theorem grid_changeAll (w : World) (changes : List Change) :
    (w.changeAll changes).grid = (changes.filterMap Change.grid?).getLastD w.grid := by
  induction changes generalizing w with
  | nil => rfl
  | cons c changes ih =>
    have hrest : (w.changeAll (c :: changes)).grid = ((w.change c).changeAll changes).grid := rfl
    rw [hrest, ih, grid_change]
    cases hgrid : c.grid? with
    | none => rw [List.filterMap_cons_none hgrid, Option.getD_none]
    | some grid => rw [List.filterMap_cons_some hgrid, List.getLastD_cons, Option.getD_some]

/-- The coordinates of the exit are those of the cell that is the exit. -/
theorem atExit_iff_isExit (w : World) :
    w.atExit = true ↔ w.isExit w.cursor.columnInt w.cursor.rowInt = true := by
  rw [isExit, Coord.ofInt?_toInt, atExit]

/-- The number of moves is the number of cells that have been entered after the start. -/
def Counted (w : World) : Prop := w.moves.toNat = min (w.trail.size - 1) 4294967295

theorem counted_new (g : Grid) : (new g).Counted := rfl

/-- A step keeps the moves counted. -/
theorem counted_step {w : World} (hcounted : w.Counted) (hhonest : w.Honest) (d : Direction) :
    (w.step d).2.Counted := by
  cases hstep : w.step d with
  | mk move w' =>
    cases move with
    | blocked cell =>
      obtain ⟨-, rfl⟩ := step_blocked hstep
      exact hcounted
    | moved origin target =>
      obtain ⟨-, -, -, rfl⟩ := step_moved hstep
      -- The start is on the trail, so the trail without it is one cell shorter.
      have hpos : 0 < w.trail.size := by
        have hne : w.trail.toList ≠ [] := by
          intro hnil
          have hhead := hhonest.head
          rw [hnil] at hhead
          cases hhead
        exact List.length_pos_iff.2 hne
      unfold Counted at hcounted ⊢
      simp only [enter, toNat_saturatingSucc, Array.size_push]
      omega

/-- Every change keeps the trail a walk to the cursor, and the moves counted. -/
theorem honest_counted_change {w : World} (hhonest : w.Honest) (hcounted : w.Counted)
    (c : Change) : (w.change c).Honest ∧ (w.change c).Counted := by
  cases c with
  | step d => exact ⟨honest_step hhonest d, counted_step hcounted hhonest d⟩
  | reset => exact ⟨honest_reset w, counted_new w.grid⟩
  | replace grid => exact ⟨honest_new grid, counted_new grid⟩

theorem honest_counted_changeAll {w : World} (hhonest : w.Honest) (hcounted : w.Counted)
    (changes : List Change) :
    (w.changeAll changes).Honest ∧ (w.changeAll changes).Counted := by
  induction changes generalizing w with
  | nil => exact ⟨hhonest, hcounted⟩
  | cons c changes ih =>
    obtain ⟨hhonest', hcounted'⟩ := honest_counted_change hhonest hcounted c
    exact ih hhonest' hcounted'

/-- A world is in order if its trail is a walk to the cursor and its moves are counted. -/
theorem inOrder_of_honest {w : World} (hhonest : w.Honest) (hcounted : w.Counted) : w.InOrder where
  head := hhonest.head
  last := hhonest.last
  inside c hc := (hhonest.isOpen c hc).1
  noWall c hc := (hhonest.isOpen c hc).2
  gapless := hhonest.adjacent.imp fun _ _ h => h.distance_eq
  moves := hcounted
  blocked _ _ _ h := (step_blocked h).2
  atExit := w.atExit_iff_isExit

/-- However a world is used, it is in order, in the maze that was put into place last. -/
theorem inOrder_changeAll (g : Grid) (changes : List Change) :
    ((new g).changeAll changes).InOrder ∧
      ((new g).changeAll changes).grid = (changes.filterMap Change.grid?).getLastD g := by
  obtain ⟨hhonest, hcounted⟩ := honest_counted_changeAll (honest_new g) (counted_new g) changes
  exact ⟨inOrder_of_honest hhonest hcounted, grid_changeAll (new g) changes⟩

end World

end Labyrinth
