import Labyrinth.Direction

/-!
# Program trees

Both dialects are read into the same **trees**: statements (`Stmt`) made of expressions
(`Expr`), and the names of everything that programs can call. A dialect only chooses how the
nodes are spelled.

## Main results

* `Capability.ofIndented?_indentedName`, `Capability.ofBraced?_bracedName`: a capability is
  found by either of its spellings.
-/

namespace Labyrinth

/-- A constant written in a program. -/
inductive Literal
  | null
  | bool (b : Bool)
  | int (n : Int64)
  | str (s : String)
  deriving DecidableEq, Repr

/-- An operator with one operand. -/
inductive UnaryOp
  | not
  | negate
  deriving DecidableEq, Repr

/-- An operator that evaluates both of its operands. -/
inductive BinaryOp
  | add
  | sub
  | mul
  /-- Division rounded towards negative infinity. -/
  | div
  /-- The remainder of that division, which takes the sign of the divisor. -/
  | rem
  | eq
  | ne
  | lt
  | le
  | gt
  | ge
  deriving DecidableEq, Repr

/-- The spelling of an operator in error messages. -/
def BinaryOp.symbol : BinaryOp → String
  | add => "+"
  | sub => "-"
  | mul => "*"
  | div => "/"
  | rem => "%"
  | eq => "=="
  | ne => "!="
  | lt => "<"
  | le => "<="
  | gt => ">"
  | ge => ">="

/-- An operator that yields the operand which decides it, and evaluates its right operand only
where the left one does not decide. -/
inductive LogicalOp
  | and
  | or
  deriving DecidableEq, Repr

/-- A function that every program can call. -/
inductive Builtin
  | len
  | str
  | range
  | abs
  | min
  | max
  | print
  deriving DecidableEq, Repr

namespace Builtin

/-- Every built-in function. -/
def all : List Builtin := [len, str, range, abs, min, max, print]

/-- The spelling of a built-in function in the indented dialect and in error messages. -/
def name : Builtin → String
  | len => "len"
  | str => "str"
  | range => "range"
  | abs => "abs"
  | min => "min"
  | max => "max"
  | print => "print"

/-- The built-in function with a given spelling. -/
def ofName? (s : String) : Option Builtin := all.find? fun b => b.name == s

end Builtin

/-- An operation on the maze. -/
inductive Capability
  /-- One step in a direction. -/
  | move (d : Direction)
  /-- The place of the cursor, as a map with the keys `x` and `y`. -/
  | getPosition
  /-- Whether the cell at two coordinates is a wall or lies outside the maze. -/
  | isWall
  /-- Whether the cell at two coordinates is the exit. -/
  | isExit
  deriving DecidableEq, Repr

namespace Capability

/-- Every capability. -/
def all : List Capability := Direction.all.map move ++ [getPosition, isWall, isExit]

/-- The spelling in the indented dialect. -/
def indentedName : Capability → String
  | move .up => "move_up"
  | move .down => "move_down"
  | move .left => "move_left"
  | move .right => "move_right"
  | getPosition => "get_position"
  | isWall => "is_wall"
  | isExit => "is_end"

/-- The spelling in the braced dialect and in error messages. -/
def bracedName : Capability → String
  | move .up => "moveUp"
  | move .down => "moveDown"
  | move .left => "moveLeft"
  | move .right => "moveRight"
  | getPosition => "getPosition"
  | isWall => "isWall"
  | isExit => "isEnd"

/-- The capability with a given spelling in the indented dialect. -/
def ofIndented? (s : String) : Option Capability := all.find? fun c => c.indentedName == s

/-- The capability with a given spelling in the braced dialect. -/
def ofBraced? (s : String) : Option Capability := all.find? fun c => c.bracedName == s

/-- The number of arguments. -/
def arity : Capability → Nat
  | isWall => 2
  | isExit => 2
  | _ => 0

/-- The direction of a step. -/
def direction? : Capability → Option Direction
  | move d => some d
  | _ => none

theorem ofIndented?_indentedName (c : Capability) : ofIndented? c.indentedName = some c := by
  rcases c with d | _ | _ | _
  · cases d <;> decide
  all_goals decide

theorem ofBraced?_bracedName (c : Capability) : ofBraced? c.bracedName = some c := by
  rcases c with d | _ | _ | _
  · cases d <;> decide
  all_goals decide

end Capability

/-- A method of a collection or of a text. -/
inductive Method
  /-- Appends to the back of a list. -/
  | push
  /-- Removes from the back of a list. -/
  | pop
  /-- Removes from the front of a list. -/
  | shift
  /-- Inserts at the front of a list. -/
  | unshift
  /-- Whether a list element, set member, map key or part of a text is present. -/
  | has
  /-- Inserts into a set. -/
  | add
  /-- Removes something that has to be present. -/
  | remove
  /-- Removes something if it is present. -/
  | discard
  /-- Looks up a key, with an optional fallback. -/
  | get
  /-- Binds a key. -/
  | put
  /-- Lists the keys of a map. -/
  | keys
  /-- Lists the values of a map. -/
  | values
  /-- Makes a shallow copy. -/
  | copy
  /-- The position of an element, or `-1`. -/
  | indexOf
  /-- A name that no value understands. -/
  | other (name : String)
  deriving DecidableEq, Repr

/-- The spelling of a method in the braced dialect and in error messages. -/
def Method.bracedName : Method → String
  | push => "push"
  | pop => "pop"
  | shift => "shift"
  | unshift => "unshift"
  | has => "has"
  | add => "add"
  | remove => "remove"
  | discard => "delete"
  | get => "get"
  | put => "set"
  | keys => "keys"
  | values => "values"
  | copy => "slice"
  | indexOf => "indexOf"
  | other name => name

/-- An expression. -/
inductive Expr
  | literal (value : Literal)
  /-- The value bound to a name. -/
  | name (name : String)
  /-- A new list of the given elements. -/
  | list (items : List Expr)
  /-- A new set without members. -/
  | emptySet
  /-- A new set of the elements of a collection. -/
  | setOf (source : Expr)
  /-- A new map without keys. -/
  | emptyMap
  /-- A new map made of the pairs in a collection. -/
  | mapOf (source : Expr)
  | unary (op : UnaryOp) (operand : Expr)
  | binary (op : BinaryOp) (lhs rhs : Expr)
  | logical (op : LogicalOp) (lhs rhs : Expr)
  /-- A call of a function defined in the program. -/
  | call (name : String) (args : List Expr)
  | builtin (function : Builtin) (args : List Expr)
  | capability (capability : Capability) (args : List Expr)
  | method (receiver : Expr) (method : Method) (args : List Expr)
  /-- An element of a collection. -/
  | index (object index : Expr)
  /-- The value of a map under a key that is written as a name. -/
  | attribute (object : Expr) (name : String)
  deriving Repr

/-- The names bound by a declaration or by a loop. -/
inductive Pattern
  /-- One name, bound to the value itself. -/
  | single (name : String)
  /-- Several names, bound to the elements of the value. -/
  | tuple (names : List String)
  deriving DecidableEq, Repr

/-- The names of a pattern, in order. -/
def Pattern.names : Pattern → List String
  | single name => [name]
  | tuple names => names

/-- A place that can be assigned to. -/
inductive Target
  /-- A name that is bound already. -/
  | name (name : String)
  /-- An element of a list or an entry of a map. -/
  | index (object index : Expr)
  /-- Several names that are bound already. -/
  | tuple (names : List String)
  deriving Repr

mutual

/-- A statement. -/
inductive Stmt
  /-- A comment on a line of its own. -/
  | comment (text : String)
  /-- A function, which can be called from anywhere in the program. -/
  | function (name : String) (params : List String) (body : List Stmt)
  /-- Binds names in the current scope; without a value they are bound to `null`. -/
  | declare (pattern : Pattern) (value : Option Expr) (constant : Bool)
  /-- Assigns a value, or the result of combining it with the present one. -/
  | assign (target : Target) (op : Option BinaryOp) (value : Expr)
  /-- Evaluates an expression and drops its value. -/
  | expr (value : Expr)
  /-- Runs the first arm whose condition holds. -/
  | cond (arms : Arms)
  /-- Runs the body as long as the condition holds. -/
  | while (condition : Expr) (body : List Stmt)
  /-- Runs the body once for every element that the collection had at the beginning. -/
  | forEach (pattern : Pattern) (iterable : Expr) (body : List Stmt)
  /-- Leaves the function, with `null` where no value is given. -/
  | return (value : Option Expr)
  /-- Leaves the innermost loop. -/
  | break
  /-- Goes on with the next round of the innermost loop. -/
  | continue
  /-- Ends the run with an error; the class is kept for printing. -/
  | throw (className : String) (message : Expr)

/-- The arms of a conditional statement that are still to be tried. -/
inductive Arms
  /-- No arm is left. -/
  | done
  /-- The body that is run when no condition has held. -/
  | otherwise (body : List Stmt)
  /-- An arm with a condition, and the arms after it. -/
  | arm (condition : Expr) (body : List Stmt) (rest : Arms)

end

/-- The arms made of guarded bodies and of an optional final body. -/
def Arms.ofList : List (Expr × List Stmt) → Option (List Stmt) → Arms
  | [], none => .done
  | [], some body => .otherwise body
  | (condition, body) :: rest, last => .arm condition body (ofList rest last)

end Labyrinth
