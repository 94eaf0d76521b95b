import Labyrinth.Machine.Equality
import Labyrinth.Machine.Display

/-!
# Operators

Integers have 64 bits. An operation whose exact result has no place in them raises an error;
division rounds towards negative infinity, and the remainder takes the sign of the divisor. Both
are got from the division that rounds towards zero, with a correction where that rounds up.

## Main results

* `Integer.checked_eq_ok_iff`: a result is accepted exactly if it fits, and it is then exact.
-/

namespace Labyrinth

namespace Integer

/-- Whether an integer has a place in 64 bits. -/
def Fits (n : Int) : Prop := Int64.minValue.toInt ≤ n ∧ n ≤ Int64.maxValue.toInt

instance (n : Int) : Decidable (Fits n) := inferInstanceAs (Decidable (_ ∧ _))

/-- An exact result, if it fits. -/
def checked (n : Int) : Except Fault Int64 :=
  if Fits n then .ok (Int64.ofInt n) else .error .overflow

/-- The quotient rounded towards zero, if it fits, and the remainder that belongs to it, which takes
the sign of the dividend. -/
def truncate (a b : Int64) : Except Fault (Int64 × Int64) :=
  if b = 0 then .error .divisionByZero
  else do return (← checked (a.toInt.tdiv b.toInt), a % b)

/-- Whether a quotient with the remainder `r` was rounded up when it was rounded towards zero. -/
def roundedUp (r b : Int64) : Bool := r != 0 && decide (r < 0) != decide (b < 0)

/-- The quotient rounded towards negative infinity. -/
def quotient (a b : Int64) : Except Fault Int64 := do
  let (q, r) ← truncate a b
  return if roundedUp r b then q - 1 else q

/-- The remainder that belongs to the quotient, which has to fit, too. -/
def remainder (a b : Int64) : Except Fault Int64 := do
  let (_, r) ← truncate a b
  return if roundedUp r b then r + b else r

theorem checked_eq_ok_iff {n : Int} {m : Int64} : checked n = .ok m ↔ m.toInt = n := by
  unfold checked
  constructor
  · intro h
    split at h
    · next hn =>
      cases h
      exact Int64.toInt_ofInt_of_le hn.1 (Int.lt_add_one_of_le hn.2)
    · cases h
  · rintro rfl
    have hn : Fits m.toInt := ⟨Int64.minValue_le_toInt m, Int64.toInt_le m⟩
    simp [hn]

end Integer

namespace Heap

/-- The fault of an operator that does not know the types of its operands. -/
def operandTypes (op : BinaryOp) (x y : Value) : Fault := .operandTypes op x.type y.type

/-- The order of two integers or of two strings, for an operator that needs it. -/
def order (op : BinaryOp) : Value → Value → Except Fault Ordering
  | .int a, .int b => .ok (compare a b)
  | .str a, .str b => .ok (compare a b)
  | x, y => .error (operandTypes op x y)

/-- Applies an operator with one operand. -/
def unary (h : Heap) : UnaryOp → Value → Except Fault Value
  | .not, v => .ok (.bool !(h.truthy v))
  | .negate, .int n => .int <$> Integer.checked (-n.toInt)
  | .negate, v => .error (.negateOperand v.type)

/-- The sum of two integers, the concatenation of two lists, or the concatenation of the texts
of two values of which one is a string. -/
def add (x y : Value) (h : Heap) : Except Fault (Value × Heap) :=
  match x, y with
  | .int a, .int b => do return (.int (← Integer.checked (a.toInt + b.toInt)), h)
  | .str _, _ => .ok (.str (h.display x ++ h.display y), h)
  | _, .str _ => .ok (.str (h.display x ++ h.display y), h)
  | .list a, .list b => .ok (h.allocList (h.list a ++ h.list b))
  | _, _ => .error (operandTypes .add x y)

/-- Applies an operator to two integers. -/
def arithmetic (op : BinaryOp) (f : Int64 → Int64 → Except Fault Int64) :
    Value → Value → Except Fault Value
  | .int a, .int b => .int <$> f a b
  | x, y => .error (operandTypes op x y)

/-- Applies an operator with two operands. -/
def binary (op : BinaryOp) (x y : Value) (h : Heap) : Except Fault (Value × Heap) :=
  match op with
  | .eq => do return (.bool (← h.equals x y), h)
  | .ne => do return (.bool !(← h.equals x y), h)
  | .lt => do return (.bool (← order op x y).isLT, h)
  | .le => do return (.bool (← order op x y).isLE, h)
  | .gt => do return (.bool (← order op x y).isGT, h)
  | .ge => do return (.bool (← order op x y).isGE, h)
  | .add => add x y h
  | .sub => do
    return (← arithmetic op (fun a b => Integer.checked (a.toInt - b.toInt)) x y, h)
  | .mul => do
    return (← arithmetic op (fun a b => Integer.checked (a.toInt * b.toInt)) x y, h)
  | .div => do return (← arithmetic op Integer.quotient x y, h)
  | .rem => do return (← arithmetic op Integer.remainder x y, h)

end Heap

end Labyrinth
