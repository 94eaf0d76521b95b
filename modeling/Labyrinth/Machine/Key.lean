import Labyrinth.Language.Tree
import Std.Data.TreeMap
import Std.Data.TreeSet

/-!
# Keys

Members of sets and keys of maps are **keys**: what a value looks like at the moment when it is
put in, with no reference to a collection that could change later. Keys are totally ordered:
`null`, then booleans, integers, strings and lists, each kind in its own order, and lists
lexicographically at any nesting.

## Main results

* `Key.compare_eq_iff`: two keys that compare as equal are equal.
* `Key.compare_swap`, `Key.compare_lt_trans`: the order is antisymmetric and transitive.
-/

namespace Labyrinth

/-- A member of a set or a key of a map. -/
inductive Key
  | null
  | bool (b : Bool)
  | int (n : Int64)
  | str (s : String)
  | list (items : List Key)
  deriving Repr, Inhabited

namespace Key

/-- The place of the kind of a key among the kinds. -/
def rank : Key → Nat
  | null => 0
  | bool _ => 1
  | int _ => 2
  | str _ => 3
  | list _ => 4

mutual

/-- The order of keys. -/
def compare : Key → Key → Ordering
  | bool a, bool b => Ord.compare a b
  | int a, int b => Ord.compare a b
  | str a, str b => Ord.compare a b
  | list as, list bs => compareAll as bs
  | a, b => Ord.compare a.rank b.rank

/-- The lexicographic order of lists of keys. -/
def compareAll : List Key → List Key → Ordering
  | [], [] => .eq
  | [], _ :: _ => .lt
  | _ :: _, [] => .gt
  | a :: as, b :: bs =>
    match compare a b with
    | .eq => compareAll as bs
    | o => o

end

instance : Ord Key := ⟨compare⟩

instance : BEq Key := ⟨fun a b => compare a b == .eq⟩

mutual

theorem compare_self : (a : Key) → compare a a = .eq
  | null => rfl
  | bool a => (Std.ReflCmp.compare_self : Ord.compare a a = .eq)
  | int a => (Std.ReflCmp.compare_self : Ord.compare a a = .eq)
  | str a => (Std.ReflCmp.compare_self : Ord.compare a a = .eq)
  | list as => compareAll_self as

theorem compareAll_self : (as : List Key) → compareAll as as = .eq
  | [] => rfl
  | a :: as => by simp [compareAll, compare_self a, compareAll_self as]

end

mutual

theorem eq_of_compare_eq : (a b : Key) → compare a b = .eq → a = b
  | null, b, h => by cases b <;> simp_all [compare, rank]
  | bool a, b, h => by
    cases b with
    | bool b => simpa [compare, Std.LawfulEqCmp.compare_eq_iff_eq] using h
    | _ => simp_all [compare, rank]
  | int a, b, h => by
    cases b with
    | int b => simpa [compare, Std.LawfulEqCmp.compare_eq_iff_eq] using h
    | _ => simp_all [compare, rank]
  | str a, b, h => by
    cases b with
    | str b => simpa [compare, Std.LawfulEqCmp.compare_eq_iff_eq] using h
    | _ => simp_all [compare, rank]
  | list as, b, h => by
    cases b with
    | list bs => exact congrArg list (eq_of_compareAll_eq as bs (by simpa [compare] using h))
    | _ => simp_all [compare, rank]

theorem eq_of_compareAll_eq : (as bs : List Key) → compareAll as bs = .eq → as = bs
  | [], [], _ => rfl
  | [], _ :: _, h => by simp [compareAll] at h
  | _ :: _, [], h => by simp [compareAll] at h
  | a :: as, b :: bs, h => by
    simp only [compareAll] at h
    split at h
    · next hab => rw [eq_of_compare_eq a b hab, eq_of_compareAll_eq as bs h]
    · next hne => exact absurd h hne

end

/-- Two keys that compare as equal are equal. -/
theorem compare_eq_iff {a b : Key} : compare a b = .eq ↔ a = b :=
  ⟨eq_of_compare_eq a b, fun h => h ▸ compare_self a⟩

mutual

/-- The order is antisymmetric. -/
theorem compare_swap : (a b : Key) → (compare a b).swap = compare b a
  | null, b => by cases b <;> rfl
  | bool a, b => by
    cases b with
    | bool b => simp only [compare]; exact Std.OrientedCmp.eq_swap.symm
    | _ => rfl
  | int a, b => by
    cases b with
    | int b => simp only [compare]; exact Std.OrientedCmp.eq_swap.symm
    | _ => rfl
  | str a, b => by
    cases b with
    | str b => simp only [compare]; exact Std.OrientedCmp.eq_swap.symm
    | _ => rfl
  | list as, b => by
    cases b with
    | list bs => exact compareAll_swap as bs
    | _ => rfl

theorem compareAll_swap : (as bs : List Key) → (compareAll as bs).swap = compareAll bs as
  | [], [] => rfl
  | [], _ :: _ => rfl
  | _ :: _, [] => rfl
  | a :: as, b :: bs => by
    simp only [compareAll, ← compare_swap a b, ← compareAll_swap as bs]
    cases compare a b <;> rfl

end

mutual

/-- The order is transitive. -/
theorem compare_lt_trans : (a b c : Key) →
    compare a b = .lt → compare b c = .lt → compare a c = .lt
  | null, b, c, h, h' => by
    cases b <;> cases c <;> simp_all [compare, rank, Nat.compare_eq_lt]
  | bool a, b, c, h, h' => by
    cases b <;> cases c <;> simp_all [compare, rank, Nat.compare_eq_lt]
    exact Std.TransCmp.lt_trans h h'
  | int a, b, c, h, h' => by
    cases b <;> cases c <;> simp_all [compare, rank, Nat.compare_eq_lt]
    exact Std.TransCmp.lt_trans h h'
  | str a, b, c, h, h' => by
    cases b <;> cases c <;> simp_all [compare, rank, Nat.compare_eq_lt]
    exact Std.TransCmp.lt_trans h h'
  | list as, b, c, h, h' => by
    cases b <;> cases c <;> simp_all [compare, rank, Nat.compare_eq_lt]
    exact compareAll_lt_trans as _ _ h h'

theorem compareAll_lt_trans : (as bs cs : List Key) →
    compareAll as bs = .lt → compareAll bs cs = .lt → compareAll as cs = .lt
  | [], [], _, h, _ => by simp [compareAll] at h
  | [], _ :: _, [], _, h => by simp [compareAll] at h
  | [], _ :: _, _ :: _, _, _ => rfl
  | _ :: _, [], _, h, _ => by simp [compareAll] at h
  | _ :: _, _ :: _, [], _, h => by simp [compareAll] at h
  | a :: as, b :: bs, c :: cs, h, h' => by
    have hlt := compare_lt_trans a b c
    have hall := compareAll_lt_trans as bs cs
    simp only [compareAll] at h h' ⊢
    cases hab : compare a b <;> cases hbc : compare b c <;> simp_all
    · rw [← compare_eq_iff.1 hbc, hab]
    · rw [compare_eq_iff.1 hab, hbc]
    · rw [compare_eq_iff.1 hab, hbc]

end

instance : Std.LawfulEqOrd Key where
  compare_self := compare_self _
  eq_of_compare := eq_of_compare_eq _ _

instance : Std.TransOrd Key where
  eq_swap {a b} := (compare_swap b a).symm
  isLE_trans {a b c} h h' := by
    change (compare a b).isLE at h
    change (compare b c).isLE at h'
    change (compare a c).isLE
    cases hab : compare a b <;> cases hbc : compare b c <;> simp_all
    · simp [compare_lt_trans a b c hab hbc]
    · simp [← compare_eq_iff.1 hbc, hab]
    · simp [compare_eq_iff.1 hab, hbc]
    · simp [compare_eq_iff.1 hab, hbc]

instance : LawfulBEq Key where
  rfl {a} := by simp [BEq.beq, compare_self]
  eq_of_beq {a b} h := eq_of_compare_eq a b (by simpa [BEq.beq] using h)

end Key

end Labyrinth
