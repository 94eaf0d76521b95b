/-!
# Ranges of characters

A **character class** beyond ASCII is given as a list of ranges of code points, each by its
first and its last member. This module holds the membership test shared by all such classes.

## Main results

* `inRanges_append`: a class given in two parts is the union of the parts.
-/

namespace Labyrinth.Text

/-- Whether a character lies in one of the ranges. -/
def inRanges (ranges : List (Nat × Nat)) (c : Char) : Bool :=
  ranges.any fun range => range.1 ≤ c.toNat && c.toNat ≤ range.2

theorem inRanges_append (xs ys : List (Nat × Nat)) (c : Char) :
    inRanges (xs ++ ys) c = (inRanges xs c || inRanges ys c) := by
  simp [inRanges]

end Labyrinth.Text
