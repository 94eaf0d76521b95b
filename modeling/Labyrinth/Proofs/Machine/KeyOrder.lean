import Labyrinth.Machine.Key
import Labyrinth.Proofs.Utf8
import Mathlib.Order.Defs.LinearOrder

/-!
# The order of keys

Keys of different kinds are ordered by their kinds: `null`, booleans, integers, strings, lists.
Within a kind, `false` comes before `true`, integers are in their usual order, strings in the order
of their bytes, and lists are in lexicographic order, at any nesting.

## Main results

* `Key.compare_eq_lt_iff`: the comparison of keys decides this order.
* `Key.Precedes.irrefl`, `Key.Precedes.trans`, `Key.precedes_or_eq_or_precedes`: it is a strict
  total order.
-/

namespace Labyrinth

namespace Key

/-- A key comes before another one. -/
inductive Precedes : Key → Key → Prop
  | kind {a b : Key} : a.rank < b.rank → Precedes a b
  | bool : Precedes (.bool false) (.bool true)
  | int {m n : Int64} : m < n → Precedes (.int m) (.int n)
  | str {s t : String} : utf8 s < utf8 t → Precedes (.str s) (.str t)
  | nil {k : Key} {ks : List Key} : Precedes (.list []) (.list (k :: ks))
  | head {k l : Key} {ks ls : List Key} : Precedes k l →
    Precedes (.list (k :: ks)) (.list (l :: ls))
  | tail {k : Key} {ks ls : List Key} : Precedes (.list ks) (.list ls) →
    Precedes (.list (k :: ks)) (.list (k :: ls))

variable {a b c : Key}

theorem compare_of_rank_lt (h : a.rank < b.rank) : compare a b = .lt := by
  cases a <;> cases b <;> simp_all [compare, rank, Nat.compare_eq_lt]

mutual

theorem precedes_of_compare : (a b : Key) → compare a b = .lt → a.Precedes b
  | .null, b, h => by
    cases b with
    | null => cases h
    | _ => exact .kind (by simp [rank])
  | .bool a, b, h => by
    cases b with
    | null => cases h
    | bool b => cases a <;> cases b <;> first | exact .bool | cases h
    | _ => exact .kind (by simp [rank])
  | .int m, b, h => by
    cases b with
    | null => cases h
    | bool => cases h
    | int n => exact .int (compareOfLessAndEq_eq_lt.1 h)
    | _ => exact .kind (by simp [rank])
  | .str s, b, h => by
    cases b with
    | str t => exact .str (string_lt_iff.1 (compareOfLessAndEq_eq_lt.1 h))
    | list ls => exact .kind (by simp [rank])
    | _ => cases h
  | .list ks, b, h => by
    cases b with
    | list ls => exact precedes_of_compareAll ks ls h
    | _ => cases h

theorem precedes_of_compareAll : (ks ls : List Key) → compareAll ks ls = .lt →
    (Key.list ks).Precedes (.list ls)
  | [], [], h => nomatch h
  | [], _ :: _, _ => .nil
  | _ :: _, [], h => nomatch h
  | k :: ks, l :: ls, h => by
    simp only [compareAll] at h
    split at h
    · next heq =>
      rw [compare_eq_iff.1 heq]
      exact .tail (precedes_of_compareAll ks ls h)
    · exact .head (precedes_of_compare k l h)

end

theorem compare_of_precedes (h : a.Precedes b) : compare a b = .lt := by
  induction h with
  | kind hrank => exact compare_of_rank_lt hrank
  | bool => rfl
  | int hlt => exact compareOfLessAndEq_eq_lt.2 hlt
  | str hlt => exact compareOfLessAndEq_eq_lt.2 (string_lt_iff.2 hlt)
  | nil => rfl
  | head _ ih => simp only [compare, compareAll, ih]
  | tail _ ih => simpa only [compare, compareAll, compare_self] using ih

/-- The comparison of keys decides their order. -/
theorem compare_eq_lt_iff : compare a b = .lt ↔ a.Precedes b :=
  ⟨precedes_of_compare a b, compare_of_precedes⟩

theorem Precedes.irrefl (a : Key) : ¬a.Precedes a := by
  intro h
  cases (compare_self a).symm.trans (compare_eq_lt_iff.2 h)

theorem Precedes.trans (hab : a.Precedes b) (hbc : b.Precedes c) : a.Precedes c := by
  rw [← compare_eq_lt_iff] at *
  exact compare_lt_trans a b c hab hbc

/-- Of two different keys, one comes before the other one. -/
theorem precedes_or_eq_or_precedes (a b : Key) : a.Precedes b ∨ a = b ∨ b.Precedes a := by
  cases h : compare a b with
  | lt => exact .inl (compare_eq_lt_iff.1 h)
  | eq => exact .inr (.inl (compare_eq_iff.1 h))
  | gt =>
    refine .inr (.inr (compare_eq_lt_iff.1 ?_))
    rw [← compare_swap, h]
    rfl

instance : DecidableEq Key := fun a b => decidable_of_iff (compare a b = .eq) compare_eq_iff

instance : LinearOrder Key where
  le a b := (compare a b).isLE
  lt a b := compare a b = .lt
  le_refl a := by rw [compare_self]; rfl
  le_trans a b c hab hbc := @Std.TransCmp.isLE_trans Key Ord.compare _ a b c hab hbc
  lt_iff_le_not_ge a b := by
    rw [← compare_swap a b]
    cases compare a b <;> simp
  le_antisymm a b hab hba := by
    rw [← compare_swap a b] at hba
    refine compare_eq_iff.1 ?_
    cases h : compare a b <;> simp_all
  le_total a b := by
    rw [← compare_swap a b]
    cases compare a b <;> simp
  toDecidableLE a b := inferInstanceAs (Decidable ((compare a b).isLE = true))
  toDecidableLT a b := inferInstanceAs (Decidable (compare a b = .lt))
  toDecidableEq := inferInstance
  compare := compare
  compare_eq_compareOfLessAndEq a b := by
    change compare a b = if compare a b = .lt then .lt else if a = b then .eq else .gt
    split
    · assumption
    · split
      · next heq => rw [heq, compare_self]
      · next hlt hne => cases h : compare a b with
        | lt => exact absurd h hlt
        | eq => exact absurd (compare_eq_iff.1 h) hne
        | gt => rfl

end Key

end Labyrinth
