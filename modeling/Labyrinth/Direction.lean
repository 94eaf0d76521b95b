/-!
# Directions

The four **directions** in which a cursor can step. Columns grow to the right and rows grow
downwards, so `up` lowers the row.

## Main results

* `Direction.offset_opposite`: the opposite direction has the negated offset.
-/

namespace Labyrinth

/-- A direction of travel. -/
inductive Direction
  | up
  | down
  | left
  | right
  deriving DecidableEq, Repr

namespace Direction

/-- Every direction, in the order in which they are declared. -/
def all : List Direction := [.up, .down, .left, .right]

/-- The lower-case name of a direction. -/
def name : Direction → String
  | up => "up"
  | down => "down"
  | left => "left"
  | right => "right"

/-- The change of column and row made by one step. -/
def offset : Direction → Int × Int
  | up => (0, -1)
  | down => (0, 1)
  | left => (-1, 0)
  | right => (1, 0)

/-- The direction that undoes a step. -/
def opposite : Direction → Direction
  | up => down
  | down => up
  | left => right
  | right => left

theorem mem_all (d : Direction) : d ∈ all := by
  cases d <;> simp [all]

theorem offset_opposite (d : Direction) :
    d.opposite.offset = (-d.offset.1, -d.offset.2) := by
  cases d <;> rfl

end Direction

end Labyrinth
