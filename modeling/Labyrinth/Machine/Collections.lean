import Labyrinth.Machine.Equality
import Labyrinth.Machine.Display

/-!
# Collections

What programs can do with every list, set, map or string: go through its **elements**, read and
replace one of them, and build a set or a map of them.

## Main results

* `slot_eq_ok_iff`: which indices name an element of a sequence.
-/

namespace Labyrinth

/-- An integer as a position in a sequence, if it is one. -/
def position? (i : Int) (size : Nat) : Option (Fin size) :=
  if h : 0 ≤ i ∧ i < size then some ⟨i.toNat, by omega⟩ else none

theorem position?_eq_some_iff {i : Int} {size : Nat} {k : Fin size} :
    position? i size = some k ↔ (k : Int) = i := by
  have := k.isLt
  unfold position?
  split
  · rw [Option.some.injEq, Fin.ext_iff]
    dsimp only
    omega
  · constructor
    · intro h
      cases h
    · omega

/-- The position that an index names in a sequence. A negative index counts from the back. -/
def slot (index : Int64) (size : Nat) : Except Fault (Fin size) :=
  match position? (if index < 0 then index.toInt + size else index.toInt) size with
  | some i => .ok i
  | none => .error (.indexOutOfRange index)

theorem slot_eq_ok_iff {index : Int64} {size : Nat} {i : Fin size} :
    slot index size = .ok i ↔
      (i : Int) = if index < 0 then index.toInt + size else index.toInt := by
  rw [← position?_eq_some_iff]
  unfold slot
  split
  · next h => simp [h]
  · next h => simp [h]

/-- The integer by which a sequence of a given type is indexed. -/
def sequenceIndex (container : ValueType) : Value → Except Fault Int64
  | .int n => .ok n
  | v => .error (.indexType container v.type)

namespace Heap

/-- The fault for a key that a map does not have. -/
def missingKey (h : Heap) : Value → Fault
  | .str s => .missingKey ("\"" ++ s ++ "\"")
  | v => .missingKey (h.display v)

/-- The elements of a collection, in order. The elements of a map are its keys, those of a string
its characters. -/
def elements (v : Value) (h : Heap) : Except Fault (List Value × Heap) :=
  match v with
  | .list a => .ok ((h.list a).toList, h)
  | .set a =>
    let (values, h) := ofKeys (h.set a).toList #[] h
    .ok (values.toList, h)
  | .map a =>
    let (values, h) := ofKeys (h.map a).keys #[] h
    .ok (values.toList, h)
  | .str s => .ok (s.toList.map Value.ofChar, h)
  | _ => .error (.notIterable v.type)

/-- Reads an element. -/
def loadIndex (h : Heap) (object index : Value) : Except Fault Value :=
  match object with
  | .list a => do
    let items := h.list a
    return items[← slot (← sequenceIndex .list index) items.size]
  | .str s => do
    let chars := s.toList
    return .ofChar (chars.get (← slot (← sequenceIndex .str index) chars.length))
  | .map a => do
    match (h.map a)[← h.key index]? with
    | some v => return v
    | none => throw (h.missingKey index)
  | _ => .error (.notSubscriptable object.type)

/-- Replaces an element of a list, or binds a key of a map. -/
def storeIndex (object index v : Value) (h : Heap) : Except Fault Heap :=
  match object with
  | .list a => do
    let i ← slot (← sequenceIndex .list index) (h.list a).size
    return h.modifyList a (·.setIfInBounds i v)
  | .map a => do
    let key ← h.key index
    return h.modifyMap a (·.insert key v)
  | _ => .error (.notAssignable object.type)

/-- Reads the value of a map under a name. -/
def loadAttribute (h : Heap) (object : Value) (name : String) : Except Fault Value :=
  match object with
  | .map a =>
    match (h.map a)[Key.str name]? with
    | some v => .ok v
    | none => .error (h.missingKey (.str name))
  | _ => .error (.noAttribute name object.type)

/-- Inserts the keys of several values into a set. -/
def insertAll (h : Heap) : KeySet → List Value → Except Fault KeySet
  | members, [] => .ok members
  | members, v :: vs => do h.insertAll (members.insert (← h.key v)) vs

/-- Binds the keys of several pairs. -/
def bindAll (h : Heap) : KeyMap → List Value → Except Fault KeyMap
  | entries, [] => .ok entries
  | entries, .list a :: pairs =>
    match (h.list a).toList with
    | [k, v] => do h.bindAll (entries.insert (← h.key k) v) pairs
    | _ => .error .mapEntry
  | _, _ :: _ => .error .mapEntry

/-- Builds a set of the elements of a collection, or an empty one of `null`. -/
def buildSet (source : Value) (h : Heap) : Except Fault (Value × Heap) :=
  match source with
  | .null => .ok (h.allocSet ∅)
  | _ => do
    let (items, h) ← h.elements source
    let members ← h.insertAll ∅ items
    return h.allocSet members

/-- Builds a map of the pairs in a collection, or an empty one of `null`. -/
def buildMap (source : Value) (h : Heap) : Except Fault (Value × Heap) :=
  match source with
  | .null => .ok (h.allocMap ∅)
  | _ => do
    let (pairs, h) ← h.elements source
    let entries ← h.bindAll ∅ pairs
    return h.allocMap entries

end Heap

end Labyrinth
