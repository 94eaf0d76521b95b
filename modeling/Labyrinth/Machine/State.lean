import Labyrinth.Machine.Code
import Labyrinth.Machine.Methods

/-!
# The state of the machine

Between two instructions the machine knows which one is next, an operand stack, the heap, the
**scope** of the top level and the **calls** in progress, each with a scope of its own.

An `Action` is a change of the state that may fail. Actions take the state apart before they
change it, so that no part of it is copied.

## Main results

* `Scope.lookup?_bind`: what a scope knows of a name after another one has been bound.
* `Action.pop_push`: what is pushed last is popped first.
-/

namespace Labyrinth

/-- What a name is bound to. -/
structure Binding where
  value : Value
  /-- Whether the name cannot be assigned to. -/
  constant : Bool
  deriving DecidableEq, Repr

/-- The names and the iterators of the top level or of a call. -/
structure Scope where
  bindings : List (String × Binding)
  /-- What the loops in progress have still to go through, the innermost one first. -/
  iterators : List (List Value)
  deriving DecidableEq, Repr

namespace Scope

/-- A scope without names and loops. -/
def empty : Scope := ⟨[], []⟩

/-- What a name is bound to. -/
def lookup? (s : Scope) (name : String) : Option Binding := s.bindings.lookup name

/-- Replaces the binding of a name, or adds one. -/
def insertBinding (name : String) (b : Binding) :
    List (String × Binding) → List (String × Binding)
  | [] => [(name, b)]
  | (other, c) :: rest =>
    if name == other then (name, b) :: rest else (other, c) :: insertBinding name b rest

/-- Binds a name. -/
def bind (s : Scope) (name : String) (b : Binding) : Scope :=
  ⟨insertBinding name b s.bindings, s.iterators⟩

/-- Binds the parameters of a function to its arguments. -/
def bindParams (s : Scope) : List String → List Value → Scope
  | p :: ps, v :: vs => (s.bind p ⟨v, false⟩).bindParams ps vs
  | _, _ => s

theorem lookup_insertBinding (name other : String) (b : Binding) (bs : List (String × Binding)) :
    (insertBinding name b bs).lookup other =
      if other == name then some b else bs.lookup other := by
  induction bs with
  | nil => grind [insertBinding]
  | cons e rest ih => grind [insertBinding]

theorem lookup?_bind (s : Scope) (name other : String) (b : Binding) :
    (s.bind name b).lookup? other = if other == name then some b else s.lookup? other :=
  lookup_insertBinding name other b s.bindings

end Scope

/-- A call in progress. -/
structure Frame where
  scope : Scope
  /-- The instruction with which the caller goes on. -/
  returnTo : Nat
  /-- The height of the stack below the arguments. -/
  base : Nat
  deriving DecidableEq, Repr

/-- The state between two instructions. -/
structure State where
  /-- The position of the next instruction. -/
  position : Nat
  /-- The operands, the top one last. -/
  stack : Array Value
  heap : Heap
  /-- The scope of the top level. -/
  globals : Scope
  /-- The calls in progress, the innermost one last. -/
  calls : Array Frame

namespace State

/-- The state before the first instruction. -/
def init : State := ⟨0, #[], .empty, .empty, #[]⟩

/-- The innermost scope. -/
def scope (s : State) : Scope :=
  match s.calls.back? with
  | some frame => frame.scope
  | none => s.globals

end State

/-- A change of the state that may fail. -/
abbrev Action := StateT State (Except Fault)

namespace Action

/-- Stops with a fault. -/
def fail {α : Type} (fault : Fault) : Action α := fun _ => .error fault

/-- Pushes a value. -/
def push (v : Value) : Action Unit
  | ⟨position, stack, heap, globals, calls⟩ =>
    .ok ((), ⟨position, stack.push v, heap, globals, calls⟩)

/-- Pops a value. -/
def pop : Action Value
  | ⟨position, stack, heap, globals, calls⟩ =>
    match stack.back? with
    | some v => .ok (v, ⟨position, stack.pop, heap, globals, calls⟩)
    | none => .error .stackUnderflow

/-- Pops values, the deepest one first. -/
def popMany (count : Nat) : Action (List Value)
  | ⟨position, stack, heap, globals, calls⟩ =>
    if count ≤ stack.size then
      let rest := stack.size - count
      let values := (stack.extract rest stack.size).toList
      .ok (values, ⟨position, stack.shrink rest, heap, globals, calls⟩)
    else .error .stackUnderflow

/-- Whether the top value counts as true. -/
def topTruth : Action Bool := do
  let s ← get
  match s.stack.back? with
  | some v => return s.heap.truthy v
  | none => fail .stackUnderflow

/-- Pushes the two topmost values once more. -/
def duplicatePair : Action Unit
  | ⟨position, stack, heap, globals, calls⟩ =>
    if h : 2 ≤ stack.size then
      let v := stack[stack.size - 2]
      let w := stack[stack.size - 1]
      .ok ((), ⟨position, (stack.push v).push w, heap, globals, calls⟩)
    else .error .stackUnderflow

/-- Goes on with the instruction at a position. -/
def jump (target : Nat) : Action Unit
  | ⟨_, stack, heap, globals, calls⟩ => .ok ((), ⟨target, stack, heap, globals, calls⟩)

/-- Pushes a value that is computed on the heap. -/
def compute (f : Heap → Except Fault (Value × Heap)) : Action Unit
  | ⟨position, stack, heap, globals, calls⟩ => do
    let (v, heap) ← f heap
    return ((), ⟨position, stack.push v, heap, globals, calls⟩)

/-- Pushes a value that is read from the heap. -/
def inspect (f : Heap → Except Fault Value) : Action Unit := compute fun h => do return (← f h, h)

/-- Changes the heap. -/
def change (f : Heap → Except Fault Heap) : Action Unit
  | ⟨position, stack, heap, globals, calls⟩ => do
    let heap ← f heap
    return ((), ⟨position, stack, heap, globals, calls⟩)

/-- The elements of a value. -/
def elements (v : Value) : Action (List Value)
  | ⟨position, stack, heap, globals, calls⟩ => do
    let (values, heap) ← heap.elements v
    return (values, ⟨position, stack, heap, globals, calls⟩)

/-- Changes the innermost scope. -/
def changeScope (f : Scope → Scope) : Action Unit
  | ⟨position, stack, heap, globals, calls⟩ =>
    if calls.isEmpty then .ok ((), ⟨position, stack, heap, f globals, calls⟩)
    else
      let calls := calls.modify (calls.size - 1) fun ⟨scope, returnTo, base⟩ =>
        ⟨f scope, returnTo, base⟩
      .ok ((), ⟨position, stack, heap, globals, calls⟩)

/-- Changes the scope of the top level. -/
def changeGlobals (f : Scope → Scope) : Action Unit
  | ⟨position, stack, heap, globals, calls⟩ =>
    .ok ((), ⟨position, stack, heap, f globals, calls⟩)

/-- Pushes the value bound to a name in the innermost scope, or else at the top level. -/
def load (name : String) : Action Unit := do
  let s ← get
  match s.scope.lookup? name <|> s.globals.lookup? name with
  | some b => push b.value
  | none => fail (.undefined name)

/-- Binds a name in the innermost scope. -/
def declare (name : String) (b : Binding) : Action Unit := changeScope (·.bind name b)

/-- Assigns to a name that is bound in the innermost scope, or else at the top level. -/
def store (name : String) (v : Value) : Action Unit := do
  let s ← get
  match s.scope.lookup? name with
  | some b =>
    if b.constant then fail (.constantAssignment name) else changeScope (·.bind name ⟨v, false⟩)
  | none =>
    match s.globals.lookup? name with
    | some b =>
      if b.constant then fail (.constantAssignment name)
      else changeGlobals (·.bind name ⟨v, false⟩)
    | none => fail (.undeclared name)

/-- Begins to iterate over several values. -/
def iterate (values : List Value) : Action Unit :=
  changeScope fun ⟨bindings, iterators⟩ => ⟨bindings, values :: iterators⟩

/-- Drops the innermost iterator. -/
def dropIterator : Action Unit :=
  changeScope fun ⟨bindings, iterators⟩ => ⟨bindings, iterators.tail⟩

/-- Pushes the next element of the innermost iterator; at its end, drops it and jumps. -/
def next (exit : Nat) : Action Unit := do
  let s ← get
  match s.scope.iterators with
  | (v :: vs) :: rest =>
    changeScope fun ⟨bindings, _⟩ => ⟨bindings, vs :: rest⟩
    push v
  | [] :: _ =>
    dropIterator
    jump exit
  | [] => fail .stackUnderflow

/-- Enters a function. -/
def enter (f : FunctionEntry) (args : List Value) : Action Unit
  | ⟨position, stack, heap, globals, calls⟩ =>
    let frame := ⟨Scope.empty.bindParams f.params args, position, stack.size⟩
    .ok ((), ⟨f.entry, stack, heap, globals, calls.push frame⟩)

/-- Leaves the innermost call with a value. -/
def leave (v : Value) : Action Unit
  | ⟨_, stack, heap, globals, calls⟩ =>
    match calls.back? with
    | some frame =>
      .ok ((), ⟨frame.returnTo, (stack.shrink frame.base).push v, heap, globals, calls.pop⟩)
    | none => .error .stackUnderflow

/-- What is pushed last is popped first. -/
theorem pop_push (v : Value) (s : State) : (push v >>= fun _ => pop) s = .ok (v, s) := by
  obtain ⟨position, stack, heap, globals, calls⟩ := s
  simp [push, pop, bind, StateT.bind, Except.bind]

end Action

end Labyrinth
