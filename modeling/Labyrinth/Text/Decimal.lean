/-!
# Decimal numbers

Numbers as users write them: ASCII digits behind an optional sign.

## Main results

* `Text.lt_of_unsigned?`: a number that is read is below the bound.
-/

namespace Labyrinth.Text

/-- The value of a digit in a base of at most sixteen. -/
def digit? (base : Nat) (c : Char) : Option Nat :=
  let value :=
    if '0' ≤ c && c ≤ '9' then some (c.toNat - 48)
    else if 'a' ≤ c && c ≤ 'f' then some (c.toNat - 87)
    else if 'A' ≤ c && c ≤ 'F' then some (c.toNat - 55)
    else none
  value.filter (· < base)

/-- The value of digits that follow a number. -/
def digitsFrom? (base : Nat) : (value : Nat) → List Char → Option Nat
  | value, [] => some value
  | value, c :: cs => do digitsFrom? base (base * value + (← digit? base c)) cs

/-- The value of at least one digit. -/
def digits? (base : Nat) (cs : List Char) : Option Nat :=
  if cs.isEmpty then none else digitsFrom? base 0 cs

/-- A number below a bound. A plus sign may stand in front. -/
def unsigned? (bound : Nat) (cs : List Char) : Option Nat :=
  let value := match cs with
    | '+' :: cs => digits? 10 cs
    | cs => digits? 10 cs
  value.filter (· < bound)

/-- An integer of 64 bits. A sign may stand in front. -/
def signed? (cs : List Char) : Option Int :=
  match cs with
  | '-' :: cs => ((digits? 10 cs).filter (· ≤ 9223372036854775808)).map fun n => -(n : Int)
  | cs => (unsigned? 9223372036854775808 cs).map Int.ofNat

theorem lt_of_unsigned? {bound n : Nat} {cs : List Char} (h : unsigned? bound cs = some n) :
    n < bound := by
  simp only [unsigned?, Option.filter_eq_some_iff, decide_eq_true_eq] at h
  exact h.2

end Labyrinth.Text
