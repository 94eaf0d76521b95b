import Labyrinth.Binary.LittleEndian
import Labyrinth.Maze.Layout
import Labyrinth.Random.Digest
import Labyrinth.Random.Keystream

/-!
# Maze sources

A **maze source** hands out one maze after the other. Every maze is carved with choices drawn
from a keystream of its own, whose seed is a digest of the seed of the source, the level and
the number of mazes handed out before. The mazes therefore depend on the order of the requests
alone.

## Main results

* `MazeSource.generate_generation`: a source counts the mazes it has handed out.
-/

namespace Labyrinth

/-- A seed and the number of mazes handed out. -/
structure MazeSource where
  /-- The seed shared by all mazes of the source. -/
  seed : UInt64
  /-- How many mazes have been handed out, modulo `2 ^ 64`. -/
  generation : UInt64
  deriving DecidableEq, Repr

namespace MazeSource

open Binary

/-- The seed of the keystream for one maze. -/
def layoutSeed (seed : UInt64) (level : UInt32) (generation : UInt64) : UInt64 :=
  let message := littleEndian 8 seed.toNat ++ littleEndian 4 level.toNat ++
    littleEndian 8 generation.toNat
  UInt64.ofNat (ofLittleEndian ((Digest.digest message).bytes.take 8))

/-- A source that has handed out nothing. -/
def ofSeed (seed : UInt64) : MazeSource := ⟨seed, 0⟩

/-- The maze that a source hands out next. -/
def maze (s : MazeSource) (level size : UInt32) : Grid :=
  (generateMaze Keystream.draw size (Keystream.ofSeed (layoutSeed s.seed level s.generation))).1

/-- Hands out a maze. -/
def generate (s : MazeSource) (level size : UInt32) : Grid × MazeSource :=
  (s.maze level size, { s with generation := s.generation + 1 })

theorem generate_generation (s : MazeSource) (level size : UInt32) :
    (s.generate level size).2 = ⟨s.seed, s.generation + 1⟩ := rfl

end MazeSource

end Labyrinth
