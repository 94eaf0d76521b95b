/-!
# Little-endian numbers

A number as a fixed count of bytes, of which the lowest comes first.

## Main results

* `ofLittleEndian_littleEndian`: the bytes of a number that is small enough are read back.
-/

namespace Labyrinth.Binary

/-- The `count` lowest bytes of a number. -/
def littleEndian : (count n : Nat) → List UInt8
  | 0, _ => []
  | count + 1, n => UInt8.ofNat n :: littleEndian count (n / 256)

/-- The number with the given bytes. -/
def ofLittleEndian : List UInt8 → Nat
  | [] => 0
  | b :: bytes => b.toNat + 256 * ofLittleEndian bytes

/-- The number of numbers that have a place in `count` bytes. -/
def capacity : (count : Nat) → Nat
  | 0 => 1
  | count + 1 => 256 * capacity count

theorem length_littleEndian (count n : Nat) : (littleEndian count n).length = count := by
  induction count generalizing n with
  | zero => rfl
  | succ count ih => simp [littleEndian, ih]

theorem ofLittleEndian_littleEndian {count n : Nat} (h : n < capacity count) :
    ofLittleEndian (littleEndian count n) = n := by
  induction count generalizing n with
  | zero => simpa [littleEndian, ofLittleEndian, capacity, eq_comm] using h
  | succ count ih =>
    have hn : n / 256 < capacity count := Nat.div_lt_of_lt_mul h
    simp only [littleEndian, ofLittleEndian, ih hn, UInt8.toNat_ofNat']
    omega

end Labyrinth.Binary
