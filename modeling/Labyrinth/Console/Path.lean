/-!
# Paths

A path is a text whose parts are divided by slashes. What a path leads to is a question for the
directory in which it is read; the name at its end can be told from the text alone.
-/

namespace Labyrinth.Console

/-- Splits a text at every slash. -/
def splitSlashes (cs : List Char) : List String :=
  (cs.splitOn '/').map String.ofList

/-- The parts of a path, those that stay in place included. -/
def pathSteps (path : String) : List String := splitSlashes path.toList

/-- The parts of a path that count. -/
def pathParts (path : String) : List String :=
  (pathSteps path).filter fun part => part != "" && part != "."

/-- Whether a path starts from the root. -/
def isAbsolute (path : String) : Bool := path.startsWith "/"

/-- The part of a file's name behind its last point, if there is something in front of it. -/
def extension (path : String) : Option String :=
  match (pathParts path).getLast? with
  | none => none
  | some name =>
    let reversed := name.toList.reverse
    let suffix := reversed.takeWhile (· != '.')
    match reversed.drop suffix.length with
    | [] => none
    | [_] => none
    | _ => if name == ".." then none else some (String.ofList suffix.reverse)

end Labyrinth.Console
