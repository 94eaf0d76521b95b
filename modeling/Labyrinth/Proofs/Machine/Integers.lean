import Labyrinth.Machine.Builtins
import Labyrinth.Proofs.Outcome
import Mathlib.Data.Rat.Floor

/-!
# Exact arithmetic

Operations on integers come to the exact result, or they raise an error: there is no place in 64
bits for it, or there is no quotient at all. Nothing ever wraps around.

For sums, differences and products this is what `Integer.checked` is made for. Division takes a
longer way. Words can only be divided with rounding towards zero, and a quotient that was rounded up
is corrected afterwards, together with its remainder; the correction itself is done with words, too.

## Main results

* `Integer.Divides.floor_eq`: quotients are fractions rounded down.
* `Integer.exact_correction`: the correction does not wrap around.
* `Heap.exact_arithmetic`: the outcomes of all operations on integers.
-/

namespace Labyrinth

namespace Integer

/-! ### Division of integers -/

/-- `z` is the quotient of `a` and `b`, rounded towards negative infinity, and `m` is the remainder
that belongs to it. -/
structure Divides (a b z m : Int) : Prop where
  eq : a = b * z + m
  sign : m = 0 ∨ m.sign = b.sign
  lt : m.natAbs < b.natAbs

theorem sign_eq_sign_iff {m b : Int} (hm : m ≠ 0) (hb : b ≠ 0) :
    m.sign = b.sign ↔ (m < 0 ↔ b < 0) := by
  rcases lt_or_gt_of_ne hm with hm | hm <;> rcases lt_or_gt_of_ne hb with hb | hb <;>
    simp [Int.sign_eq_one_of_pos, Int.sign_eq_neg_one_of_neg, hm, hb, not_lt_of_gt]

/-- The remainder is a proper part of the divisor. -/
theorem Divides.floor_remainder {a b z m : Int} (h : Divides a b z m) : ⌊(m : ℚ) / b⌋ = 0 := by
  obtain ⟨-, hsign, hlt⟩ := h
  rw [Int.floor_eq_zero_iff, Set.mem_Ico]
  rcases lt_trichotomy b 0 with hb | rfl | hb
  · have hm : b < m ∧ m ≤ 0 := by
      rw [Int.sign_eq_neg_one_of_neg hb, Int.sign_eq_neg_one_iff_neg] at hsign
      omega
    have hb' : (b : ℚ) < 0 := Int.cast_lt_zero.2 hb
    refine ⟨div_nonneg_of_nonpos (Int.cast_nonpos.2 hm.2) hb'.le, ?_⟩
    rw [div_lt_one_of_neg hb']
    exact Int.cast_lt.2 hm.1
  · exact absurd hlt (Nat.not_lt_zero _)
  · have hm : 0 ≤ m ∧ m < b := by
      rw [Int.sign_eq_one_of_pos hb, Int.sign_eq_one_iff_pos] at hsign
      omega
    have hb' : (0 : ℚ) < b := Int.cast_pos.2 hb
    refine ⟨div_nonneg (Int.cast_nonneg hm.1) hb'.le, ?_⟩
    rw [div_lt_one hb']
    exact Int.cast_lt.2 hm.2

/-- The quotient is the greatest integer that is not above the fraction. -/
theorem Divides.floor_eq {a b z m : Int} (h : Divides a b z m) : ⌊(a : ℚ) / b⌋ = z := by
  have hb : (b : ℚ) ≠ 0 := by
    rw [Int.cast_ne_zero]
    rintro rfl
    exact absurd h.lt (Nat.not_lt_zero _)
  have hsplit : (a : ℚ) / b = z + m / b := by
    rw [h.eq]
    push_cast
    field_simp
  rw [hsplit, Int.floor_intCast_add, h.floor_remainder, add_zero]

section Truncation

variable {a b : Int}

theorem natAbs_tmod_lt (hb : b ≠ 0) : (a.tmod b).natAbs < b.natAbs := by
  rw [Int.natAbs_tmod]
  exact Nat.mod_lt _ (Int.natAbs_pos.2 hb)

/-- A quotient that is rounded towards zero is right where there is no remainder, or one with the
sign of the divisor. -/
theorem divides_tdiv (hb : b ≠ 0) (h : ¬(a.tmod b ≠ 0 ∧ ¬(a.tmod b < 0 ↔ b < 0))) :
    Divides a b (a.tdiv b) (a.tmod b) := by
  refine ⟨(Int.mul_tdiv_add_tmod a b).symm, ?_, natAbs_tmod_lt hb⟩
  by_cases hr : a.tmod b = 0
  · exact .inl hr
  · exact .inr ((sign_eq_sign_iff hr hb).2 (by tauto))

/-- It is too great by one where there is a remainder with the other sign. -/
theorem divides_tdiv_sub_one (hb : b ≠ 0) (hr : a.tmod b ≠ 0) (h : ¬(a.tmod b < 0 ↔ b < 0)) :
    Divides a b (a.tdiv b - 1) (a.tmod b + b) := by
  have hlt := natAbs_tmod_lt (a := a) hb
  have heq := Int.mul_tdiv_add_tmod a b
  refine ⟨by linarith, .inr ?_, by omega⟩
  rw [sign_eq_sign_iff (by omega) hb]
  omega

/-- Where there is a remainder, the quotient is far from the ends of the range. -/
theorem two_mul_natAbs_tdiv_le (hb : b ≠ 0) (hr : a.tmod b ≠ 0) :
    2 * (a.tdiv b).natAbs ≤ a.natAbs := by
  have hlt := natAbs_tmod_lt (a := a) hb
  have htwo : 2 ≤ b.natAbs := by omega
  calc 2 * (a.tdiv b).natAbs ≤ b.natAbs * (a.tdiv b).natAbs := Nat.mul_le_mul_right _ htwo
    _ = b.natAbs * (a.natAbs / b.natAbs) := by rw [Int.natAbs_tdiv]; rfl
    _ ≤ a.natAbs := Nat.mul_div_le _ _

end Truncation

/-! ### Division of words -/

theorem fits_iff {n : Int} : Fits n ↔ -2 ^ 63 ≤ n ∧ n < 2 ^ 63 := by
  simp only [Fits, Int64.toInt_minValue, Int64.toInt_maxValue]
  omega

theorem fits_toInt (a : Int64) : Fits a.toInt := fits_iff.2 ⟨a.le_toInt, a.toInt_lt⟩

theorem toInt_sub_of_fits {a b : Int64} (h : Fits (a.toInt - b.toInt)) :
    (a - b).toInt = a.toInt - b.toInt := by
  rw [fits_iff] at h
  rw [Int64.toInt_sub]
  exact Int.bmod_eq_of_le (by omega) (by omega)

theorem toInt_add_of_fits {a b : Int64} (h : Fits (a.toInt + b.toInt)) :
    (a + b).toInt = a.toInt + b.toInt := by
  rw [fits_iff] at h
  rw [Int64.toInt_add]
  exact Int.bmod_eq_of_le (by omega) (by omega)

theorem roundedUp_eq_true_iff {r b : Int64} :
    roundedUp r b = true ↔ r.toInt ≠ 0 ∧ ¬(r.toInt < 0 ↔ b.toInt < 0) := by
  simp only [roundedUp, Bool.and_eq_true, bne_iff_ne, ne_eq, decide_eq_decide,
    Int64.lt_iff_toInt_lt, Int64.toInt_zero, ← Int64.toInt_inj]

section Words

variable {a b q r : Int64}

theorem truncate_of_ne_zero (hb : b.toInt ≠ 0) :
    truncate a b = checked (a.toInt.tdiv b.toInt) >>= fun q => .ok (q, a % b) := by
  have hb : b ≠ 0 := fun h => hb (Int64.toInt_inj.2 h)
  rw [truncate, if_neg hb]
  rfl

theorem truncate_eq_ok_iff :
    truncate a b = .ok (q, r) ↔
      b.toInt ≠ 0 ∧ q.toInt = a.toInt.tdiv b.toInt ∧ r.toInt = a.toInt.tmod b.toInt := by
  by_cases hb : b.toInt = 0
  · obtain rfl : b = 0 := Int64.toInt_inj.1 hb
    exact iff_of_false nofun fun h => h.1 hb
  · rw [truncate_of_ne_zero hb, bind_eq_ok_iff]
    constructor
    · rintro ⟨_, hq, heq⟩
      cases heq
      exact ⟨hb, checked_eq_ok_iff.1 hq, Int64.toInt_mod a b⟩
    · rintro ⟨-, hq, hr⟩
      rw [← Int64.toInt_mod, Int64.toInt_inj] at hr
      exact ⟨q, checked_eq_ok_iff.2 hq, by rw [hr]⟩

theorem truncate_of_not_fits (hb : b.toInt ≠ 0) (h : ¬Fits (a.toInt.tdiv b.toInt)) :
    truncate a b = .error .overflow := by
  rw [truncate_of_ne_zero hb, checked, if_neg h]
  rfl

/-- The correction of a quotient and of its remainder does not wrap around. -/
theorem exact_correction (h : truncate a b = .ok (q, r)) (hr : roundedUp r b = true) :
    (q - 1).toInt = q.toInt - 1 ∧ (r + b).toInt = r.toInt + b.toInt := by
  obtain ⟨hb, hq, hm⟩ := truncate_eq_ok_iff.1 h
  obtain ⟨hr, hsign⟩ := roundedUp_eq_true_iff.1 hr
  have ha := fits_iff.1 (fits_toInt a)
  have hb' := fits_iff.1 (fits_toInt b)
  have hlt := natAbs_tmod_lt (a := a.toInt) hb
  have hquotient := two_mul_natAbs_tdiv_le hb (hm ▸ hr)
  rw [← hm] at hlt
  rw [← hq] at hquotient
  have hone : (1 : Int64).toInt = 1 := rfl
  rw [← hone]
  exact ⟨toInt_sub_of_fits (fits_iff.2 (by omega)), toInt_add_of_fits (fits_iff.2 (by omega))⟩

/-- The quotient that is rounded towards zero fits into 64 bits exactly if the other one does. -/
theorem fits_tdiv_iff (hb : b.toInt ≠ 0) :
    Fits (a.toInt.tdiv b.toInt) ↔ Fits ⌊(a.toInt : ℚ) / b.toInt⌋ := by
  by_cases h : a.toInt.tmod b.toInt ≠ 0 ∧ ¬(a.toInt.tmod b.toInt < 0 ↔ b.toInt < 0)
  · have ha := fits_iff.1 (fits_toInt a)
    have hquotient := two_mul_natAbs_tdiv_le hb h.1
    rw [(divides_tdiv_sub_one hb h.1 h.2).floor_eq, fits_iff, fits_iff]
    omega
  · rw [(divides_tdiv hb h).floor_eq]

theorem quotient_eq (a b : Int64) :
    quotient a b = truncate a b >>= fun r => .ok (if roundedUp r.2 b then r.1 - 1 else r.1) := rfl

theorem remainder_eq (a b : Int64) :
    remainder a b = truncate a b >>= fun r => .ok (if roundedUp r.2 b then r.2 + b else r.2) := rfl

/-- A division whose quotient fits. -/
theorem exists_divides (hb : b.toInt ≠ 0) (h : Fits ⌊(a.toInt : ℚ) / b.toInt⌋) :
    ∃ q r, quotient a b = .ok q ∧ remainder a b = .ok r ∧
      Divides a.toInt b.toInt q.toInt r.toInt := by
  have hfits := (fits_tdiv_iff hb).2 h
  have htruncate : truncate a b = .ok (.ofInt (a.toInt.tdiv b.toInt), a % b) :=
    truncate_eq_ok_iff.2 ⟨hb, checked_eq_ok_iff.1 (if_pos hfits), Int64.toInt_mod a b⟩
  obtain ⟨-, hq, hr⟩ := truncate_eq_ok_iff.1 htruncate
  have hexact := exact_correction htruncate
  rw [quotient_eq, remainder_eq, htruncate]
  generalize Int64.ofInt (a.toInt.tdiv b.toInt) = q at *
  generalize a % b = r at *
  refine ⟨_, _, rfl, rfl, ?_⟩
  cases hup : roundedUp r b with
  | true =>
    obtain ⟨hsub, hadd⟩ := hexact hup
    rw [if_pos rfl, if_pos rfl, hsub, hadd, hq, hr]
    obtain ⟨hne, hsign⟩ := roundedUp_eq_true_iff.1 hup
    exact divides_tdiv_sub_one hb (hr ▸ hne) (hr ▸ hsign)
  | false =>
    rw [if_neg Bool.false_ne_true, if_neg Bool.false_ne_true, hq, hr]
    refine divides_tdiv hb fun h => ?_
    rw [← hr, ← roundedUp_eq_true_iff, hup] at h
    exact Bool.false_ne_true h

end Words

/-! ### Outcomes -/

/-- The outcome of an operation whose exact result is `n`: the integer, or an overflow if it has no
place in 64 bits. -/
def Exact {α : Type} (n : Int) (give : Int64 → α) (outcome : Except Fault α) : Prop :=
  (∃ m : Int64, m.toInt = n ∧ outcome = .ok (give m)) ∨ (¬Fits n ∧ outcome = .error .overflow)

/-- The outcomes of a division and of the remainder that belongs to it. Both are refused where there
is no quotient, or where the quotient has no place in 64 bits. -/
def Divided {α : Type} (a b : Int64) (give : Int64 → α) (division rest : Except Fault α) : Prop :=
  let floor := ⌊(a.toInt : ℚ) / b.toInt⌋
  if b.toInt = 0 then division = .error .divisionByZero ∧ rest = .error .divisionByZero
  else if Fits floor then
    ∃ q r : Int64, division = .ok (give q) ∧ rest = .ok (give r) ∧
      q.toInt = floor ∧ r.toInt = a.toInt - b.toInt * floor ∧
        (r.toInt = 0 ∨ r.toInt.sign = b.toInt.sign) ∧ |r.toInt| < |b.toInt|
  else division = .error .overflow ∧ rest = .error .overflow

theorem checked_cases (n : Int) :
    (∃ m : Int64, m.toInt = n ∧ checked n = .ok m) ∨ (¬Fits n ∧ checked n = .error .overflow) := by
  by_cases h : Fits n
  · have hok : checked n = .ok (.ofInt n) := if_pos h
    exact .inl ⟨_, checked_eq_ok_iff.1 hok, hok⟩
  · exact .inr ⟨h, if_neg h⟩

/-- What is done with a checked result afterwards does not matter. -/
theorem exact_checked {α : Type} {n : Int} {give : Int64 → α} {outcome : Except Fault α}
    (h : outcome = checked n >>= fun m => .ok (give m)) : Exact n give outcome := by
  obtain ⟨m, hm, hok⟩ | ⟨hfits, herror⟩ := checked_cases n
  · exact .inl ⟨m, hm, by rw [h, hok]; rfl⟩
  · exact .inr ⟨hfits, by rw [h, herror]; rfl⟩

theorem divided_quotient {α : Type} {a b : Int64} {give : Int64 → α}
    {division rest : Except Fault α} (hdivision : division = quotient a b >>= fun m => .ok (give m))
    (hrest : rest = remainder a b >>= fun m => .ok (give m)) : Divided a b give division rest := by
  unfold Divided
  dsimp only
  rw [hdivision, hrest]
  split
  · next hb =>
    obtain rfl : b = 0 := Int64.toInt_inj.1 hb
    exact ⟨rfl, rfl⟩
  · next hb =>
    split
    · next hfits =>
      obtain ⟨q, r, hq, hr, hdivides⟩ := exists_divides hb hfits
      rw [hq, hr, hdivides.floor_eq]
      refine ⟨q, r, rfl, rfl, rfl, eq_sub_of_add_eq' hdivides.eq.symm, hdivides.sign, ?_⟩
      rw [Int.abs_eq_natAbs, Int.abs_eq_natAbs]
      exact Int.ofNat_lt.2 hdivides.lt
    · next hfits =>
      rw [quotient_eq, remainder_eq, truncate_of_not_fits hb ((fits_tdiv_iff hb).not.2 hfits)]
      exact ⟨rfl, rfl⟩

end Integer

open Labyrinth.Integer

theorem arithmetic_int (op : BinaryOp) (f : Int64 → Int64 → Except Fault Int64) (a b : Int64)
    (h : Heap) :
    (do return (← Heap.arithmetic op f (.int a) (.int b), h)) =
      f a b >>= fun m => .ok (Value.int m, h) := by
  rw [Heap.arithmetic]
  cases f a b <;> rfl

/-- The operators and functions that compute with integers come to the exact result, or they
overflow; division and its remainder are those of the fraction that is rounded down. The words that
are computed on the way to a quotient are exact, too. -/
theorem Heap.exact_arithmetic (h : Heap) (a b : Int64) :
    let x := Value.int a
    let y := Value.int b
    let give (m : Int64) : Value × Heap := (.int m, h)
    Exact (a.toInt + b.toInt) give (h.binary .add x y) ∧
      Exact (a.toInt - b.toInt) give (h.binary .sub x y) ∧
      Exact (a.toInt * b.toInt) give (h.binary .mul x y) ∧
      Exact (-a.toInt) .int (h.unary .negate x) ∧
      Exact |a.toInt| give (h.builtin .abs [x]) ∧
      Divided a b give (h.binary .div x y) (h.binary .rem x y) ∧
      ∀ q r, truncate a b = .ok (q, r) →
        q.toInt = a.toInt.tdiv b.toInt ∧ r.toInt = a.toInt.tmod b.toInt ∧
          (roundedUp r b = true →
            (q - 1).toInt = q.toInt - 1 ∧ (r + b).toInt = r.toInt + b.toInt) := by
  dsimp only
  refine ⟨exact_checked rfl, exact_checked (arithmetic_int _ _ _ _ h),
    exact_checked (arithmetic_int _ _ _ _ h), exact_checked ?_, exact_checked ?_,
    divided_quotient (arithmetic_int _ _ _ _ h) (arithmetic_int _ _ _ _ h),
    fun q r htruncate => ?_⟩
  · exact map_eq_pure_bind Value.int _
  · rw [Int.abs_eq_natAbs]
    rfl
  · obtain ⟨-, hq, hr⟩ := truncate_eq_ok_iff.1 htruncate
    exact ⟨hq, hr, exact_correction htruncate⟩

/-- There is no quotient in 64 bits, and so no remainder either, although it would be 0. -/
example (h : Heap) : h.binary .rem (.int Int64.minValue) (.int (-1)) = .error .overflow := rfl

end Labyrinth
