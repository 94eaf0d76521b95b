/-!
# Lines

A text made of lines, each of which is ended by a line feed.
-/

namespace Labyrinth.Text

/-- Writes lines, each with a line feed at its end. -/
def unlines (lines : List String) : String := String.join (lines.map (· ++ "\n"))

end Labyrinth.Text
