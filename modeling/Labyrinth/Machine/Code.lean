import Labyrinth.Language.Tree

/-!
# Machine code

The **instructions** of the stack machine that runs programs, and the **code** of a program: one
list of instructions, which begins with the top level and goes on with the function bodies, and
a table of the functions.

## Main results

* `Instr.target?`: the position to which an instruction may jump.
-/

namespace Labyrinth

/-- An instruction. Jump targets are positions in the list of all instructions. -/
inductive Instr
  /-- Pushes a constant. -/
  | push (value : Literal)
  /-- Pushes the value bound to a name. -/
  | load (name : String)
  /-- Pops a value and binds a name to it in the current scope. -/
  | declare (name : String) (constant : Bool)
  /-- Pops a value and assigns it to a name that is bound already. -/
  | store (name : String)
  /-- Pops a collection of a given size and pushes its elements, the first one on top. -/
  | unpack (count : Nat)
  /-- Pops an index and a collection and pushes an element. -/
  | loadIndex
  /-- Pops a value, an index and a collection and replaces an element. -/
  | storeIndex
  /-- Pushes the two topmost values once more. -/
  | duplicatePair
  /-- Pops a map and pushes the value under a key that is written as a name. -/
  | loadAttribute (name : String)
  | unary (op : UnaryOp)
  | binary (op : BinaryOp)
  | jump (target : Nat)
  /-- Pops a value and jumps if it is falsy. -/
  | jumpIfFalse (target : Nat)
  /-- Jumps if the top value is falsy, and pops it otherwise. -/
  | jumpIfFalseElsePop (target : Nat)
  /-- Jumps if the top value is truthy, and pops it otherwise. -/
  | jumpIfTrueElsePop (target : Nat)
  /-- Pops values and pushes a list of them. -/
  | buildList (count : Nat)
  /-- Pops a collection, or `null`, and pushes a set. -/
  | buildSet
  /-- Pops a collection of pairs, or `null`, and pushes a map. -/
  | buildMap
  /-- Pops a collection and begins to iterate over the elements that it has now. -/
  | iterStart
  /-- Pushes the next element, or drops the iterator and jumps. -/
  | iterNext (exit : Nat)
  /-- Drops the innermost iterator. -/
  | iterDrop
  /-- Calls a function of the table. -/
  | call (function argc : Nat)
  /-- Raises the error for a name that no function has. -/
  | callUndefined (name : String)
  | builtin (function : Builtin) (argc : Nat)
  /-- Calls a method of the value below the arguments. -/
  | method (method : Method) (argc : Nat)
  | capability (capability : Capability) (argc : Nat)
  /-- Drops the top value. -/
  | pop
  /-- Leaves the function with the top value. -/
  | return
  /-- Pops a message and raises it. -/
  | throw
  /-- Ends the program. -/
  | halt
  deriving DecidableEq, Repr

/-- The position to which an instruction may jump. -/
def Instr.target? : Instr → Option Nat
  | jump target => some target
  | jumpIfFalse target => some target
  | jumpIfFalseElsePop target => some target
  | jumpIfTrueElsePop target => some target
  | iterNext exit => some exit
  | _ => none

/-- A function of a program. -/
structure FunctionEntry where
  name : String
  params : List String
  /-- The position of the first instruction of its body. -/
  entry : Nat
  deriving DecidableEq, Repr

/-- The code of a program, which is run from its first instruction on. -/
structure Code where
  instructions : Array Instr
  functions : Array FunctionEntry
  deriving DecidableEq, Repr

end Labyrinth
