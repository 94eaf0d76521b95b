import Labyrinth.Language.Braced.Grammar
import Labyrinth.Language.Dialect
import Labyrinth.Language.Indented.Grammar

/-!
# Reading programs

Every program is read into a tree, or refused with the first error found in it.
-/

namespace Labyrinth

/-- The tree of a program. -/
def Program.read (p : Program) : Except SyntaxError (List Stmt) :=
  match p.dialect with
  | .indented => Indented.parse p.source
  | .braced => Braced.parse p.source

end Labyrinth
