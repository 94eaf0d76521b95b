import Labyrinth.Machine.Fault

/-!
# Keys and equality of values

Both follow the references of a value. Collections can contain themselves, so they stop with a
fault where a value is nested more deeply than `maxDepth`.

## Main results

* `Heap.equals_same`: every value equals itself, a cyclic one too.
-/

namespace Labyrinth

/-- The deepest nesting of collections that is compared or turned into a key. -/
def maxDepth : Nat := 256

/-- Whether two lists are equal by a comparison of their elements that may fail. The lists are
compared as far as the shorter one goes. -/
def allEqual (eq : Value → Value → Except Fault Bool) :
    List Value → List Value → Except Fault Bool
  | x :: xs, y :: ys => do
    if ← eq x y then allEqual eq xs ys else return false
  | _, _ => return true

namespace Heap

/-- The key of a value whose collections are nested in at most `levels` levels. -/
def keyWithin (h : Heap) : (levels : Nat) → Value → Except Fault Key
  | 0, _ => throw .nestingDepth
  | levels + 1, value =>
    match value with
    | .null => return .null
    | .bool b => return .bool b
    | .int n => return .int n
    | .str s => return .str s
    | .list a => return .list (← (h.list a).toList.mapM (h.keyWithin levels))
    | .set _ => throw (.unhashable .set)
    | .map _ => throw (.unhashable .map)

/-- The key of a value. Sets and maps have none. -/
def key (h : Heap) (value : Value) : Except Fault Key := h.keyWithin (maxDepth + 1) value

/-- Whether two values are equal, compared down to at most `levels` levels. -/
def equalsWithin (h : Heap) : (levels : Nat) → Value → Value → Except Fault Bool
  | 0, _, _ => throw .nestingDepth
  | levels + 1, x, y =>
    match x, y with
    | .null, .null => return true
    | .bool a, .bool b => return a == b
    | .int a, .int b => return a == b
    | .str a, .str b => return a == b
    | .list a, .list b =>
      if a = b then return true
      else if (h.list a).size ≠ (h.list b).size then return false
      else allEqual (h.equalsWithin levels) (h.list a).toList (h.list b).toList
    | .set a, .set b => return a == b || (h.set a).toList == (h.set b).toList
    | .map a, .map b =>
      if a = b then return true
      else if (h.map a).size ≠ (h.map b).size then return false
      else equalEntries (h.equalsWithin levels) (h.map a).toList (h.map b).toList
    | _, _ => return false
where
  /-- Whether the entries of two maps are equal, each key before its value. -/
  equalEntries (eq : Value → Value → Except Fault Bool) :
      List (Key × Value) → List (Key × Value) → Except Fault Bool
    | (k, x) :: xs, (l, y) :: ys => do
      if k != l then return false
      if ← eq x y then equalEntries eq xs ys else return false
    | _, _ => return true

/-- Whether two values are equal. Values of different types never are. -/
def equals (h : Heap) (x y : Value) : Except Fault Bool := h.equalsWithin (maxDepth + 1) x y

/-- The position of the first of several values that equals a given one. -/
def indexOf? (h : Heap) (needle : Value) : List Value → Except Fault (Option Nat) := go 0
where
  /-- The search from the position `i` on. -/
  go (i : Nat) : List Value → Except Fault (Option Nat)
    | [] => return none
    | item :: items => do
      if ← h.equals item needle then return some i else go (i + 1) items

/-- Every value equals itself, a cyclic one too. -/
theorem equals_same (h : Heap) (x : Value) : h.equals x x = .ok true := by
  cases x <;> simp [equals, equalsWithin, pure, Except.pure]

end Heap

end Labyrinth
