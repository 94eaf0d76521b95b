import Labyrinth.Counter

/-!
# Levels

Levels are counted from one. The mazes grow with the level, up to a greatest size.

## Main results

* `toNat_sizeForLevel`: the side lengths as numbers.
* `Level.toNat_next`: the number of the next level.
-/

namespace Labyrinth

/-- The side length of the mazes of the first level. -/
def baseSize : UInt32 := 7

/-- The greatest side length. -/
def maxSize : UInt32 := 31

/-- The side length of the maze of a level. A level below the first one counts as the first. -/
def sizeForLevel (level : UInt32) : UInt32 :=
  UInt32.ofNat (min (baseSize.toNat + 2 * (level.toNat - 1)) maxSize.toNat)

theorem toNat_sizeForLevel (level : UInt32) :
    (sizeForLevel level).toNat = min (7 + 2 * (level.toNat - 1)) 31 := by
  rw [sizeForLevel, UInt32.toNat_ofNat_of_lt']
  · rfl
  · exact Nat.lt_of_le_of_lt (Nat.min_le_right _ _) (by decide)

/-- A level. -/
structure Level where
  number : UInt32
  one_le : 1 ≤ number.toNat
  deriving DecidableEq, Repr

namespace Level

/-- The level with a given number, or the first one. -/
def ofNumber (n : UInt32) : Level :=
  if h : 1 ≤ n.toNat then ⟨n, h⟩ else ⟨1, by decide⟩

/-- The side length of the maze. -/
def size (l : Level) : UInt32 := sizeForLevel l.number

/-- The next level, or the last one again. -/
def next (l : Level) : Level :=
  ⟨saturatingSucc l.number, by
    have := l.one_le
    rw [toNat_saturatingSucc]
    omega⟩

theorem toNat_next (l : Level) : l.next.number.toNat = min (l.number.toNat + 1) 4294967295 :=
  toNat_saturatingSucc l.number

end Level

end Labyrinth
