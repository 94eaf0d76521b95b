import Labyrinth.Proofs.Machine.Integers
import Mathlib.Algebra.Order.Floor.Div
import Mathlib.Data.Set.Card

/-!
# Ranges

A range holds the members of an arithmetic progression that come before a bound, which is left out.
The machine first computes how many there are, by a division that rounds up, and then counts from
one member to the next. Every member is checked when it is reached; as it lies between the first one
and the bound, it always has a place in 64 bits.

## Main results

* `lt_rangeCount_iff`: what the number of elements is compared with the bound.
* `progression_of_fits`: counting from member to member.
* `Heap.ranged_builtin`: the outcomes of the built-in function.
-/

namespace Labyrinth

open Labyrinth.Integer

/-! ### The number of elements -/

/-- An integer comes **before** a bound in the direction of a step. -/
def Before (step bound n : Int) : Prop := if 0 < step then n < bound else bound < n

/-- After how many steps a progression is still before a bound. -/
def stepsBefore (start stop step : Int) : Set ℕ := {k | Before step stop (start + k * step)}

section Count

variable {start stop step : Int}

theorem rangeCount_eq_ceilDiv (hstep : step ≠ 0) :
    rangeCount start stop step =
      (if 0 < step then stop - start else start - stop).toNat ⌈/⌉ step.natAbs := by
  have hpos : 0 < step.natAbs := Int.natAbs_pos.2 hstep
  rw [rangeCount, Nat.ceilDiv_eq_add_pred_div, Nat.add_sub_assoc hpos]

/-- A member is in the range exactly if it comes before the bound. -/
theorem lt_rangeCount_iff (hstep : step ≠ 0) (k : ℕ) :
    k < rangeCount start stop step ↔ Before step stop (start + k * step) := by
  have hpos : 0 < step.natAbs := Int.natAbs_pos.2 hstep
  rw [rangeCount_eq_ceilDiv hstep, ← not_le, ceilDiv_le_iff_le_mul hpos, not_le, Int.lt_toNat,
    Int.natCast_mul, Int.natCast_natAbs, Before, mul_comm]
  split
  · next hup =>
    rw [abs_of_pos hup]
    exact lt_sub_iff_add_lt'
  · next hup =>
    rw [abs_of_nonpos (not_lt.1 hup), mul_neg]
    constructor
    · intro h
      linarith
    · intro h
      linarith

theorem stepsBefore_eq_Iio (hstep : step ≠ 0) :
    stepsBefore start stop step = Set.Iio (rangeCount start stop step) :=
  Set.ext fun k => (lt_rangeCount_iff hstep k).symm

theorem encard_stepsBefore (hstep : step ≠ 0) :
    (stepsBefore start stop step).encard = rangeCount start stop step := by
  rw [stepsBefore_eq_Iio hstep, ← Finset.coe_range, Set.encard_coe_eq_coe_finsetCard,
    Finset.card_range]

/-- A member that comes before the bound lies between the first one and the bound. -/
theorem Before.fits {k : ℕ} (h : Before step stop (start + k * step)) (hstart : Fits start)
    (hstop : Fits stop) : Fits (start + k * step) := by
  have hk : (0 : Int) ≤ k := Int.natCast_nonneg k
  unfold Before at h
  split at h
  · next hup =>
    have hmember := mul_nonneg hk hup.le
    exact ⟨by linarith [hstart.1], by linarith [hstop.2]⟩
  · next hup =>
    have hmember := mul_nonpos_of_nonneg_of_nonpos hk (not_lt.1 hup)
    exact ⟨by linarith [hstop.1], by linarith [hstart.2]⟩

end Count

/-! ### The elements -/

theorem toInt_ofInt_of_fits {n : Int} (h : Fits n) : (Int64.ofInt n).toInt = n :=
  checked_eq_ok_iff.1 (if_pos h)

/-- The first members of a progression, as words. -/
def members (start step : Int) (count : ℕ) : List Int64 :=
  (List.range count).map fun k : ℕ => Int64.ofInt (start + k * step)

theorem members_succ (start step : Int) (count : ℕ) :
    members start step (count + 1) = Int64.ofInt start :: members (start + step) step count := by
  have hshift (k : ℕ) : start + ((k + 1 : ℕ) : Int) * step = start + step + k * step := by
    push_cast
    ring
  simp only [members, List.range_succ_eq_map, List.map_cons, List.map_map, Function.comp_def,
    Nat.succ_eq_add_one, hshift]
  simp

/-- Counting from one member to the next does not overflow if all members fit. -/
theorem progression_of_fits {start step : Int} {count : ℕ}
    (h : ∀ k < count, Fits (start + k * step)) (items : Array Value) :
    progression step count start items =
      .ok (items ++ ((members start step count).map Value.int).toArray) := by
  induction count generalizing start items with
  | zero => simp [progression, members]
  | succ count ih =>
    have hfirst : Fits start := by simpa using h 0 (Nat.succ_pos count)
    have hrest (k : ℕ) (hk : k < count) : Fits (start + step + k * step) := by
      have hnext := h (k + 1) (Nat.succ_lt_succ hk)
      push_cast at hnext
      rwa [add_assoc, ← one_add_mul, add_comm 1 (k : Int)]
    rw [progression_succ (if_pos hfirst), ih hrest, members_succ]
    simp

theorem toInt_members {start step : Int} {count : ℕ} (h : ∀ k < count, Fits (start + k * step)) :
    (members start step count).map Int64.toInt =
      (List.range count).map fun k : ℕ => start + k * step := by
  rw [members, List.map_map]
  exact List.map_congr_left fun k hk => toInt_ofInt_of_fits (h k (List.mem_range.1 hk))

/-! ### Outcomes -/

/-- The outcome of building a range: a new list of the members that come before the bound, all of
them exact, unless there are too many or the progression does not move. -/
def Ranged (h : Heap) (start stop step : Int64) (outcome : Except Fault (Value × Heap)) : Prop :=
  if step = 0 then outcome = .error .zeroStep
  else ∃ count : ℕ, (stepsBefore start.toInt stop.toInt step.toInt).encard = count ∧
    if 1000000 < count then outcome = .error (.rangeTooLarge count)
    else ∃ items : List Int64, outcome = .ok (h.allocList (items.map Value.int).toArray) ∧
      items.map Int64.toInt = (List.range count).map fun k : ℕ => start.toInt + k * step.toInt

theorem Heap.ranged_range (h : Heap) (start stop step : Int64) :
    Ranged h start stop step (h.range start stop step) := by
  unfold Ranged Heap.range
  split
  · rfl
  · next hstep =>
    have hstep : step.toInt ≠ 0 := fun hzero => hstep (Int64.toInt_inj.1 hzero)
    have hfits (k : ℕ) (hk : k < rangeCount start.toInt stop.toInt step.toInt) :
        Fits (start.toInt + k * step.toInt) :=
      ((lt_rangeCount_iff hstep k).1 hk).fits (fits_toInt start) (fits_toInt stop)
    refine ⟨_, encard_stepsBefore hstep, ?_⟩
    split
    · next hmany => exact if_pos hmany
    · next hmany =>
      refine ⟨_, (if_neg hmany).trans ?_, toInt_members hfits⟩
      rw [progression_of_fits hfits, Array.empty_append]
      rfl

theorem Ranged.ne_overflow {h : Heap} {start stop step : Int64}
    {outcome : Except Fault (Value × Heap)} (hranged : Ranged h start stop step outcome) :
    outcome ≠ .error .overflow := by
  unfold Ranged at hranged
  split at hranged
  · rw [hranged]
    nofun
  · obtain ⟨count, -, hranged⟩ := hranged
    split at hranged
    · rw [hranged]
      nofun
    · obtain ⟨items, hranged, -⟩ := hranged
      rw [hranged]
      nofun

/-- A range holds exactly the members of the progression before the bound, and never overflows. It
starts from zero and goes on by one where this is left open. -/
theorem Heap.ranged_builtin (h : Heap) (start stop step : Int64) :
    let range (args : List Int64) := h.builtin .range (args.map .int)
    Ranged h start stop step (range [start, stop, step]) ∧
      range [start, stop, step] ≠ .error .overflow ∧
      range [stop] = range [0, stop, 1] ∧ range [start, stop] = range [start, stop, 1] := by
  have hranged := h.ranged_range start stop step
  exact ⟨hranged, hranged.ne_overflow, rfl, rfl⟩

/-- The step does not divide the way from the first to the last word, and the bound is left out. -/
example (h : Heap) :
    h.builtin .range [.int Int64.minValue, .int Int64.maxValue, .int Int64.maxValue] =
      .ok (h.allocList #[.int Int64.minValue, .int (-1), .int 9223372036854775806]) := rfl

end Labyrinth
