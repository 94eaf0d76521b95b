/-!
# Dialects

Programs are written in one of two **dialects**. The indented dialect delimits blocks by
indentation; the braced dialect delimits them by braces and ends statements with semicolons.

## Main results

* `Dialect.ofName?_name`: a dialect is found by its name.
-/

namespace Labyrinth

/-- The way a program is written. -/
inductive Dialect
  | indented
  | braced
  deriving DecidableEq, Repr

namespace Dialect

/-- The name by which users choose a dialect. -/
def name : Dialect → String
  | indented => "indented"
  | braced => "primitive-call"

/-- The dialect with a given name. -/
def ofName? (s : String) : Option Dialect :=
  if s = "indented" then some indented
  else if s = "primitive-call" then some braced
  else none

theorem ofName?_name (d : Dialect) : ofName? d.name = some d := by
  cases d <;> decide

end Dialect

/-- A source text and the dialect in which it is written. -/
structure Program where
  /-- The dialect of the source. -/
  dialect : Dialect
  /-- The text of the program. -/
  source : String
  deriving DecidableEq, Repr

end Labyrinth
