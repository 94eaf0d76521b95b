import Labyrinth.Machine.Key

/-!
# Values and the heap

The **values** of a running program. Lists, sets and maps are shared: a value only holds the
address of a collection, whose contents are kept in the **heap**, so that a change through one
name is seen through all others.

Every collection is allocated at a fresh address, and addresses are never used again. The heap
keeps lists, sets and maps apart; the address of a value names a place among those of its kind.

## Main results

* `Heap.list_allocList`, `Heap.list_modifyList`: what the list at an address holds after an
  allocation and after a change.
-/

namespace Labyrinth

/-- The type of a value. -/
inductive ValueType
  | null
  | bool
  | int
  | str
  | list
  | set
  | map
  deriving DecidableEq, Repr

/-- The name of a type in error messages. -/
def ValueType.name : ValueType → String
  | null => "null"
  | bool => "bool"
  | int => "int"
  | str => "str"
  | list => "list"
  | set => "set"
  | map => "map"

/-- A value. -/
inductive Value
  | null
  | bool (b : Bool)
  | int (n : Int64)
  | str (s : String)
  /-- The list at an address. -/
  | list (address : Nat)
  /-- The set at an address. -/
  | set (address : Nat)
  /-- The map at an address. -/
  | map (address : Nat)
  deriving DecidableEq, Repr, Inhabited

namespace Value

/-- The type of a value. -/
def type : Value → ValueType
  | null => .null
  | bool _ => .bool
  | int _ => .int
  | str _ => .str
  | list _ => .list
  | set _ => .set
  | map _ => .map

/-- The value of a constant. -/
def ofLiteral : Literal → Value
  | .null => null
  | .bool b => bool b
  | .int n => int n
  | .str s => str s

/-- A string of one character. -/
def ofChar (c : Char) : Value := str c.toString

/-- A count, which is far below the greatest integer. -/
def ofNat (n : Nat) : Value := int (Int64.ofNat n)

end Value

/-- The contents of a set. -/
abbrev KeySet := Std.TreeSet Key

/-- The contents of a map. -/
abbrev KeyMap := Std.TreeMap Key Value

/-- The contents of all collections. -/
structure Heap where
  lists : Array (Array Value)
  sets : Array KeySet
  maps : Array KeyMap

namespace Heap

/-- The heap without any collection. -/
def empty : Heap := ⟨#[], #[], #[]⟩

/-- The elements of the list at an address. -/
def list (h : Heap) (address : Nat) : Array Value := h.lists[address]?.getD #[]

/-- The members of the set at an address. -/
def set (h : Heap) (address : Nat) : KeySet := h.sets[address]?.getD ∅

/-- The entries of the map at an address. -/
def map (h : Heap) (address : Nat) : KeyMap := h.maps[address]?.getD ∅

/-- Allocates a list. -/
def allocList (items : Array Value) : Heap → Value × Heap
  | ⟨lists, sets, maps⟩ => (.list lists.size, ⟨lists.push items, sets, maps⟩)

/-- Allocates a set. -/
def allocSet (members : KeySet) : Heap → Value × Heap
  | ⟨lists, sets, maps⟩ => (.set sets.size, ⟨lists, sets.push members, maps⟩)

/-- Allocates a map. -/
def allocMap (entries : KeyMap) : Heap → Value × Heap
  | ⟨lists, sets, maps⟩ => (.map maps.size, ⟨lists, sets, maps.push entries⟩)

/-- Changes the elements of the list at an address. -/
def modifyList (address : Nat) (f : Array Value → Array Value) : Heap → Heap
  | ⟨lists, sets, maps⟩ => ⟨lists.modify address f, sets, maps⟩

/-- Changes the members of the set at an address. -/
def modifySet (address : Nat) (f : KeySet → KeySet) : Heap → Heap
  | ⟨lists, sets, maps⟩ => ⟨lists, sets.modify address f, maps⟩

/-- Changes the entries of the map at an address. -/
def modifyMap (address : Nat) (f : KeyMap → KeyMap) : Heap → Heap
  | ⟨lists, sets, maps⟩ => ⟨lists, sets, maps.modify address f⟩

/-- A value counts as true unless it is `false`, `null`, zero or empty. -/
def truthy (h : Heap) : Value → Bool
  | .null => false
  | .bool b => b
  | .int n => n != 0
  | .str s => !s.isEmpty
  | .list a => !(h.list a).isEmpty
  | .set a => !(h.set a).isEmpty
  | .map a => !(h.map a).isEmpty

mutual

/-- The value of a key. The lists in it are new ones, so a change of the value does not reach
the key. -/
def ofKey : Key → Heap → Value × Heap
  | .null, h => (.null, h)
  | .bool b, h => (.bool b, h)
  | .int n, h => (.int n, h)
  | .str s, h => (.str s, h)
  | .list items, h =>
    let (values, h) := ofKeys items #[] h
    h.allocList values

/-- The values of several keys, behind those that are given. -/
def ofKeys : List Key → Array Value → Heap → Array Value × Heap
  | [], values, h => (values, h)
  | key :: keys, values, h =>
    let (value, h) := ofKey key h
    ofKeys keys (values.push value) h

end

theorem list_allocList (h : Heap) (items : Array Value) :
    ∃ address, (h.allocList items).1 = .list address ∧
      (h.allocList items).2.list address = items := by
  exact ⟨h.lists.size, rfl, by simp [allocList, list]⟩

theorem list_modifyList (h : Heap) {address : Nat} (ha : address < h.lists.size)
    (f : Array Value → Array Value) :
    (h.modifyList address f).list address = f (h.list address) := by
  simp [modifyList, list, ha, Array.getElem_modify]

end Heap

end Labyrinth
