import Labyrinth.Machine.Value

/-!
# Faults

A **fault** stops a running program. `Fault.message` is the text that users see.
-/

namespace Labyrinth

/-- How many arguments a function takes. -/
structure Arity where
  least : Nat
  most : Nat
  deriving DecidableEq, Repr

namespace Arity

/-- Exactly so many arguments. -/
def exactly (n : Nat) : Arity := ⟨n, n⟩

/-- At least one argument, up to the greatest number that an instruction can name. -/
def atLeastOne : Arity := ⟨1, 18446744073709551615⟩

/-- Whether so many arguments are right. -/
def admits (a : Arity) (n : Nat) : Bool := a.least ≤ n && n ≤ a.most

/-- The wording of an arity in error messages. -/
def text (a : Arity) : String :=
  if a.least = a.most then toString a.least else s!"{a.least} to {a.most}"

theorem admits_exactly {n m : Nat} : (exactly n).admits m = true ↔ m = n := by
  grind [exactly, admits]

end Arity

/-- What stops a running program. -/
inductive Fault
  /-- A name without a binding was read or called. -/
  | undefined (name : String)
  /-- A name without a binding was assigned to. -/
  | undeclared (name : String)
  /-- A constant was assigned to. -/
  | constantAssignment (name : String)
  | operandTypes (op : BinaryOp) (lhs rhs : ValueType)
  | negateOperand (operand : ValueType)
  | divisionByZero
  /-- An integer result has no place in 64 bits. -/
  | overflow
  | indexOutOfRange (index : Int64)
  /-- A map has no such key; the text shows the key. -/
  | missingKey (key : String)
  | notSubscriptable (type : ValueType)
  | notAssignable (type : ValueType)
  /-- A sequence was indexed by something else than an integer. -/
  | indexType (container found : ValueType)
  | notIterable (type : ValueType)
  /-- A set or a map was used as a key. -/
  | unhashable (type : ValueType)
  | noMethod (method : Method) (type : ValueType)
  /-- An attribute was read of something else than a map. -/
  | noAttribute (name : String) (type : ValueType)
  | arity (callee : String) (expected : Arity) (given : Nat)
  | argumentType (callee : String) (expected found : ValueType)
  | noLength (type : ValueType)
  /-- A pattern has another number of names than the value has elements. -/
  | unpack (expected found : Nat)
  /-- A map was built of something else than pairs. -/
  | mapEntry
  | emptyPop
  /-- An element to remove is not in the list. -/
  | notFound
  /-- A member to remove is not in the set. -/
  | notMember
  | emptySequence (function : Builtin)
  | zeroStep
  | rangeTooLarge (count : Nat)
  /-- Collections are nested too deeply, or cyclically, to be compared or used as keys. -/
  | nestingDepth
  /-- Too many calls are in progress. -/
  | recursionDepth
  /-- The program raised an error itself. -/
  | raised (message : String)
  /-- An instruction found too few operands, or no function or iterator. -/
  | stackUnderflow
  deriving DecidableEq, Repr

/-- The text of a fault. -/
def Fault.message : Fault → String
  | undefined name => s!"name '{name}' is not defined"
  | undeclared name => s!"assignment to undeclared variable '{name}'"
  | constantAssignment name => s!"assignment to constant variable '{name}'"
  | operandTypes op lhs rhs =>
    s!"unsupported operand types for {op.symbol}: {lhs.name} and {rhs.name}"
  | negateOperand operand => s!"bad operand type for unary -: {operand.name}"
  | divisionByZero => "division by zero"
  | overflow => "integer overflow"
  | indexOutOfRange index => s!"index {index} out of range"
  | missingKey key => s!"key {key} not found"
  | notSubscriptable type => s!"'{type.name}' value is not subscriptable"
  | notAssignable type => s!"'{type.name}' value does not support item assignment"
  | indexType container found =>
    s!"{container.name} indices must be integers, not {found.name}"
  | notIterable type => s!"'{type.name}' value is not iterable"
  | unhashable type => s!"unhashable type: '{type.name}'"
  | noMethod method type => s!"cannot call method '{method.bracedName}' on {type.name}"
  | noAttribute name type => s!"'{type.name}' value has no attribute '{name}'"
  | arity callee expected given =>
    s!"{callee}() takes {expected.text} arguments but {given} were given"
  | argumentType callee expected found =>
    s!"{callee}() expected {expected.name} argument, got {found.name}"
  | noLength type => s!"object of type '{type.name}' has no length"
  | unpack expected found => s!"cannot unpack {found} values into {expected} names"
  | mapEntry => "map entries must be [key, value] pairs"
  | emptyPop => "pop from empty list"
  | notFound => "value not found in list"
  | notMember => "value not found in set"
  | emptySequence function => s!"{function.name}() arg is an empty sequence"
  | zeroStep => "range() step must not be zero"
  | rangeTooLarge count => s!"range of {count} elements is too large"
  | nestingDepth => "maximum nesting depth exceeded"
  | recursionDepth => "maximum recursion depth exceeded"
  | raised message => message
  | stackUnderflow => "internal error: operand stack underflow"

end Labyrinth
