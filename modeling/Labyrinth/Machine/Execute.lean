import Labyrinth.Machine.State
import Labyrinth.World

/-!
# Instructions

What one instruction does to the state. An instruction can read the world but not change it: a
step is only asked for, as an **effect**, and so is a line to be printed.

## Main results

* `State.next_of_getElem?_eq_none`: a program whose instructions are used up has ended.
-/

namespace Labyrinth

/-- What an instruction asks for beside the change of the state. -/
inductive Effect
  | none
  /-- A line is printed. -/
  | print (line : String)
  /-- The cursor tries a step, and the machine pauses. -/
  | move (d : Direction)
  /-- The program has ended. -/
  | halt
  deriving DecidableEq, Repr

namespace Action

/-- Calls a function. -/
def call (code : Code) (maxCalls function argc : Nat) : Action Unit := do
  match code.functions[function]? with
  | some f =>
    if f.params.length ≠ argc then fail (.arity f.name (.exactly f.params.length) argc)
    else if maxCalls ≤ (← get).calls.size then fail .recursionDepth
    else enter f (← popMany argc)
  | none => fail .stackUnderflow

/-- The map with the coordinates of the cursor. -/
def positionMap (w : World) : KeyMap :=
  (Std.TreeMap.empty.insert (.str "x") (.ofNat w.position.column.toNat)).insert
    (.str "y") (.ofNat w.position.row.toNat)

/-- Performs an operation on the maze. -/
def capability (w : World) (c : Capability) (args : List Value) : Action Effect := do
  Arity.check (.exactly c.arity) c.bracedName args.length
  match c, args with
  | .move d, _ =>
    push .null
    return .move d
  | .isWall, [x, y] =>
    let column ← integerArgument c.bracedName x
    let row ← integerArgument c.bracedName y
    push (.bool (w.isWall column.toInt row.toInt))
    return .none
  | .isExit, [x, y] =>
    let column ← integerArgument c.bracedName x
    let row ← integerArgument c.bracedName y
    push (.bool (w.isExit column.toInt row.toInt))
    return .none
  | _, _ =>
    compute fun h => .ok (h.allocMap (positionMap w))
    return .none

/-- The texts of several values with blanks between them. -/
def line (values : List Value) : Action String := do
  let h := (← get).heap
  return " ".intercalate (values.map h.display)

end Action

open Labyrinth.Action

/-- Executes an instruction, after the position has been moved behind it. -/
def Instr.execute (code : Code) (maxCalls : Nat) (w : World) : Instr → Action Effect
  | .push value => do
    Action.push (.ofLiteral value)
    return .none
  | .load name => do
    Action.load name
    return .none
  | .declare name constant => do
    Action.declare name ⟨← Action.pop, constant⟩
    return .none
  | .store name => do
    Action.store name (← Action.pop)
    return .none
  | .unpack count => do
    let values ← elements (← Action.pop)
    if values.length ≠ count then fail (.unpack count values.length)
    values.reverse.forM Action.push
    return .none
  | .loadIndex => do
    let index ← Action.pop
    let object ← Action.pop
    inspect fun h => h.loadIndex object index
    return .none
  | .storeIndex => do
    let v ← Action.pop
    let index ← Action.pop
    let object ← Action.pop
    change (Heap.storeIndex object index v)
    return .none
  | .duplicatePair => do
    Action.duplicatePair
    return .none
  | .loadAttribute name => do
    let object ← Action.pop
    inspect fun h => h.loadAttribute object name
    return .none
  | .unary op => do
    let operand ← Action.pop
    inspect fun h => h.unary op operand
    return .none
  | .binary op => do
    let rhs ← Action.pop
    let lhs ← Action.pop
    compute (Heap.binary op lhs rhs)
    return .none
  | .jump target => do
    Action.jump target
    return .none
  | .jumpIfFalse target => do
    let truth ← topTruth
    let _ ← Action.pop
    unless truth do Action.jump target
    return .none
  | .jumpIfFalseElsePop target => do
    if ← topTruth then let _ ← Action.pop else Action.jump target
    return .none
  | .jumpIfTrueElsePop target => do
    if ← topTruth then Action.jump target else let _ ← Action.pop
    return .none
  | .buildList count => do
    let items ← popMany count
    compute fun h => .ok (h.allocList items.toArray)
    return .none
  | .buildSet => do
    compute (Heap.buildSet (← Action.pop))
    return .none
  | .buildMap => do
    compute (Heap.buildMap (← Action.pop))
    return .none
  | .iterStart => do
    iterate (← elements (← Action.pop))
    return .none
  | .iterNext exit => do
    next exit
    return .none
  | .iterDrop => do
    dropIterator
    return .none
  | .call function argc => do
    Action.call code maxCalls function argc
    return .none
  | .callUndefined name => fail (.undefined name)
  | .builtin .print argc => do
    let text ← line (← popMany argc)
    Action.push .null
    return .print text
  | .builtin function argc => do
    let args ← popMany argc
    compute (Heap.builtin function args)
    return .none
  | .method m argc => do
    let args ← popMany argc
    let receiver ← Action.pop
    compute (Heap.callMethod receiver m args)
    return .none
  | .capability c argc => do
    Action.capability w c (← popMany argc)
  | .pop => do
    let _ ← Action.pop
    return .none
  | .return => do
    leave (← Action.pop)
    return .none
  | .throw => do
    let message ← Action.pop
    fail (.raised ((← get).heap.display message))
  | .halt => return .halt

/-- Executes the next instruction. A program whose instructions are used up has ended. -/
def State.next (code : Code) (maxCalls : Nat) (w : World) (s : State) :
    Except Fault (Effect × State) :=
  match code.instructions[s.position]? with
  | some instr => instr.execute code maxCalls w { s with position := s.position + 1 }
  | none => .ok (.halt, s)

theorem State.next_of_getElem?_eq_none {code : Code} {s : State}
    (h : code.instructions[s.position]? = none) (maxCalls : Nat) (w : World) :
    s.next code maxCalls w = .ok (.halt, s) := by
  simp [State.next, h]

end Labyrinth
