import Labyrinth.Machine.Operators
import Labyrinth.Machine.Collections

/-!
# Built-in functions

Every built-in function but `print`, which the machine performs itself.

## Main results

* `progression_succ`: a member of a range that fits is put behind those before it.
-/

namespace Labyrinth

/-- Refuses a wrong number of arguments. -/
def Arity.check (a : Arity) (callee : String) (given : Nat) : Except Fault Unit :=
  if a.admits given then .ok () else .error (.arity callee a given)

/-- An argument that has to be an integer. -/
def integerArgument (callee : String) : Value → Except Fault Int64
  | .int n => .ok n
  | v => .error (.argumentType callee .int v.type)

/-- The greatest number of elements of a range. -/
def maxRange : Nat := 1000000

/-- The number of elements of a range with a step other than zero. -/
def rangeCount (start stop step : Int) : Nat :=
  let span := if 0 < step then stop - start else start - stop
  (span.toNat + (step.natAbs - 1)) / step.natAbs

/-- The first `count` members of an arithmetic progression, behind the values that are given. Each
of them has to fit. -/
def progression (step : Int) :
    (count : Nat) → (member : Int) → Array Value → Except Fault (Array Value)
  | 0, _, items => .ok items
  | count + 1, member, items => do
    progression step count (member + step) (items.push (.int (← Integer.checked member)))

theorem progression_succ {step : Int} {count : Nat} {member : Int} {n : Int64}
    (h : Integer.checked member = .ok n) (items : Array Value) :
    progression step (count + 1) member items =
      progression step count (member + step) (items.push (.int n)) := by
  rw [progression, h]
  rfl

namespace Heap

/-- Allocates the integers from `start` up or down to `stop`, which is left out. -/
def range (start stop step : Int64) (h : Heap) : Except Fault (Value × Heap) :=
  if step = 0 then .error .zeroStep
  else
    let count := rangeCount start.toInt stop.toInt step.toInt
    if maxRange < count then .error (.rangeTooLarge count)
    else do return h.allocList (← progression step.toInt count start.toInt #[])

/-- The number of elements of a collection or of characters of a string. -/
def length (h : Heap) : Value → Except Fault Value
  | .str s => .ok (.ofNat s.length)
  | .list a => .ok (.ofNat (h.list a).size)
  | .set a => .ok (.ofNat (h.set a).size)
  | .map a => .ok (.ofNat (h.map a).size)
  | v => .error (.noLength v.type)

/-- The first one among the extreme values, as far as they are known: `best` is replaced where
`better` says so of the order of a value and the best one. -/
def extreme (better : Ordering → Bool) : (best : Value) → List Value → Except Fault Value
  | best, [] => .ok best
  | best, v :: vs => do
    if better (← order .lt v best) then extreme better v vs else extreme better best vs

/-- The least or greatest one of the arguments, or of the elements of the only argument. -/
def extremeOf (function : Builtin) (better : Ordering → Bool) (args : List Value) (h : Heap) :
    Except Fault (Value × Heap) := do
  Arity.atLeastOne.check function.name args.length
  let (values, h) ← match args with
    | [v] => h.elements v
    | _ => pure (args, h)
  match values with
  | [] => throw (.emptySequence function)
  | v :: vs => return (← extreme better v vs, h)

/-- Calls a built-in function. -/
def builtin (function : Builtin) (args : List Value) (h : Heap) : Except Fault (Value × Heap) :=
  match function, args with
  | .len, [v] => do return (← h.length v, h)
  | .len, _ => .error (.arity function.name (.exactly 1) args.length)
  | .str, [v] => .ok (.str (h.display v), h)
  | .str, _ => .error (.arity function.name (.exactly 1) args.length)
  | .range, _ => do
    Arity.check ⟨1, 3⟩ function.name args.length
    match ← args.mapM (integerArgument function.name) with
    | [stop] => h.range 0 stop 1
    | [start, stop] => h.range start stop 1
    | [start, stop, step] => h.range start stop step
    | _ => return (.null, h)
  | .abs, [v] => do
    return (.int (← Integer.checked (← integerArgument function.name v).toInt.natAbs), h)
  | .abs, _ => .error (.arity function.name (.exactly 1) args.length)
  | .min, _ => h.extremeOf function Ordering.isLT args
  | .max, _ => h.extremeOf function Ordering.isGT args
  | .print, _ => .ok (.null, h)

end Heap

end Labyrinth
