import Labyrinth.Proofs.Walks

/-!
# Distances

The distance of two cells is a word, the sum of two others. As long as the sum has a place in a
word, it is the number of steps between the cells on an open plane, and the laws of a distance hold.
Of cells that are further apart, the distance only tells the steps modulo `4294967296`, and cells at
opposite edges can seem to be one and the same.

## Main results

* `Coord.toNat_distance`: the distance of any two cells as a number.
* `Coord.span_eq_one_iff`: the cells one step away are the neighbours in the four directions.
* `Coord.span_le_add`: a detour is no shorter.
* `Coord.metric_distance`: the laws of distances that have a place in a word.
-/

namespace Labyrinth

namespace Coord

/-- The number of steps between two cells on an open plane. -/
def span (a b : Coord) : ℕ :=
  (a.columnInt - b.columnInt).natAbs + (a.rowInt - b.rowInt).natAbs

theorem toNat_gap (x y : UInt32) : (gap x y).toNat = ((x.toNat : ℤ) - y.toNat).natAbs := by
  unfold gap
  split
  · next hlt =>
    have hlt := UInt32.lt_iff_toNat_lt.1 hlt
    rw [UInt32.toNat_sub_of_le _ _ (UInt32.le_iff_toNat_le.2 hlt.le)]
    omega
  · next hlt =>
    have hle := Nat.le_of_not_lt (mt UInt32.lt_iff_toNat_lt.2 hlt)
    rw [UInt32.toNat_sub_of_le _ _ (UInt32.le_iff_toNat_le.2 hle)]
    omega

/-- The distance of any two cells: the number of steps between them, as far as a word can tell. -/
theorem toNat_distance (a b : Coord) : (a.distance b).toNat = a.span b % 4294967296 := by
  rw [distance, UInt32.toNat_add, toNat_gap, toNat_gap]
  rfl

theorem span_comm (a b : Coord) : a.span b = b.span a := by
  simp only [span]
  omega

theorem span_eq_zero_iff {a b : Coord} : a.span b = 0 ↔ a = b := by
  constructor
  · intro h
    obtain ⟨column, row⟩ := a
    obtain ⟨column', row'⟩ := b
    simp only [span, columnInt, rowInt] at h
    rw [mk.injEq, ← UInt32.toNat_inj, ← UInt32.toNat_inj]
    omega
  · rintro rfl
    simp [span]

/-- A detour is no shorter. -/
theorem span_le_add (a b c : Coord) : a.span c ≤ a.span b + b.span c := by
  simp only [span]
  omega

/-- The cells one step away are the neighbours in the four directions. -/
theorem span_eq_one_iff {a b : Coord} : a.span b = 1 ↔ ∃ d, a.neighbor? d = some b := by
  rw [← adjacent_iff, Adjacent, ← UInt32.toNat_inj, ← UInt32.toNat_inj]
  simp only [span, columnInt, rowInt]
  omega

/-- Cells side by side are one step apart. -/
theorem Adjacent.distance_eq {a b : Coord} (h : a.Adjacent b) : a.distance b = 1 := by
  have hspan := span_eq_one_iff.2 (adjacent_iff.1 h)
  exact UInt32.toNat_inj.1 (by rw [toNat_distance, hspan]; rfl)

/-- The distance is the same in both directions. It is the number of steps exactly if this has a
place in a word; and then only the cell itself is at distance zero, only its neighbours are at
distance one, and a detour over a third cell is no shorter. -/
theorem metric_distance (a b c : Coord) :
    a.distance b = b.distance a ∧
      ((a.distance b).toNat = a.span b ↔ a.span b < 4294967296) ∧
      (a.span b < 4294967296 →
        (a.distance b = 0 ↔ a = b) ∧
          (a.distance b = 1 ↔ ∃ d, a.neighbor? d = some b) ∧
            (b.span c < 4294967296 →
              (a.distance c).toNat ≤ (a.distance b).toNat + (b.distance c).toNat)) := by
  have hexact (x y : Coord) (h : x.span y < 4294967296) : (x.distance y).toNat = x.span y := by
    rw [toNat_distance, Nat.mod_eq_of_lt h]
  refine ⟨?_, ⟨fun h => ?_, hexact a b⟩, fun hab => ⟨?_, ?_, fun hbc => ?_⟩⟩
  · rw [← UInt32.toNat_inj, toNat_distance, toNat_distance, span_comm]
  · exact h ▸ (a.distance b).toNat_lt
  · rw [← UInt32.toNat_inj, hexact a b hab]
    exact span_eq_zero_iff
  · rw [← UInt32.toNat_inj, hexact a b hab]
    exact span_eq_one_iff
  · calc
      (a.distance c).toNat ≤ a.span c := by
        rw [toNat_distance]
        exact Nat.mod_le _ _
      _ ≤ a.span b + b.span c := span_le_add a b c
      _ = (a.distance b).toNat + (b.distance c).toNat := by rw [hexact a b hab, hexact b c hbc]

/-- Two cells as far apart as a word can tell, and a third one beside the second. -/
theorem metric_distance_edges :
    let a : Coord := ⟨0, 5⟩
    let b : Coord := ⟨4294967290, 0⟩
    let c : Coord := ⟨4294967290, 1⟩
    a.span b < 4294967296 ∧ b.span c < 4294967296 ∧ (a.distance b).toNat = 4294967295 ∧
      a.distance b = b.distance a ∧ (a.distance b = 0 ↔ a = b) ∧
        (a.distance b = 1 ↔ ∃ d, a.neighbor? d = some b) ∧
          (a.distance c).toNat ≤ (a.distance b).toNat + (b.distance c).toNat := by
  intro a b c
  have hab : a.span b < 4294967296 := by decide
  have hbc : b.span c < 4294967296 := by decide
  obtain ⟨hcomm, hexact, hlaws⟩ := metric_distance a b c
  obtain ⟨hzero, hone, hdetour⟩ := hlaws hab
  exact ⟨hab, hbc, hexact.2 hab, hcomm, hzero, hone, hdetour hbc⟩

/-- From the first column to the last one and a row further, the number of steps has no place in a
word any more: the two cells are at distance zero, although they are different. -/
theorem distance_outermost :
    let a : Coord := ⟨0, 0⟩
    let b : Coord := ⟨4294967295, 1⟩
    a.span b = 4294967296 ∧ a.distance b = 0 ∧ a ≠ b := by
  decide

end Coord

end Labyrinth
