/-!
# Counters

Counters of moves and levels stop at the greatest word instead of beginning again at zero.

## Main results

* `toNat_saturatingSucc`: the successor as a number.
-/

namespace Labyrinth

/-- The next greater word, or the greatest one. -/
def saturatingSucc (n : UInt32) : UInt32 := if n = 4294967295 then n else n + 1

theorem toNat_saturatingSucc (n : UInt32) :
    (saturatingSucc n).toNat = min (n.toNat + 1) 4294967295 := by
  have hn := n.toNat_lt
  unfold saturatingSucc
  split
  · next h => simp [h]
  · next h =>
    have : n.toNat ≠ 4294967295 := fun h' => h (UInt32.toNat_inj.1 h')
    simp only [UInt32.toNat_add, UInt32.toNat_one]
    omega

end Labyrinth
