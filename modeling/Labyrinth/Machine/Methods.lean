import Labyrinth.Machine.Builtins
import Labyrinth.Text.Search

/-!
# Methods

What can be called on a list, a set, a map or a string. A method that the type of the receiver
does not have raises an error whatever its arguments are.
-/

namespace Labyrinth

/-- The number of arguments of a method, if values of a type have it. -/
def ValueType.methodArity? : ValueType → Method → Option Arity
  | .list, .push => some (.exactly 1)
  | .list, .pop => some (.exactly 0)
  | .list, .shift => some (.exactly 0)
  | .list, .unshift => some (.exactly 1)
  | .list, .has => some (.exactly 1)
  | .list, .indexOf => some (.exactly 1)
  | .list, .remove => some (.exactly 1)
  | .list, .discard => some (.exactly 1)
  | .list, .copy => some (.exactly 0)
  | .set, .add => some (.exactly 1)
  | .set, .has => some (.exactly 1)
  | .set, .remove => some (.exactly 1)
  | .set, .discard => some (.exactly 1)
  | .set, .copy => some (.exactly 0)
  | .map, .get => some ⟨1, 2⟩
  | .map, .put => some (.exactly 2)
  | .map, .has => some (.exactly 1)
  | .map, .remove => some (.exactly 1)
  | .map, .discard => some (.exactly 1)
  | .map, .keys => some (.exactly 0)
  | .map, .values => some (.exactly 0)
  | .map, .copy => some (.exactly 0)
  | .str, .has => some (.exactly 1)
  | .str, .indexOf => some (.exactly 1)
  | _, _ => none

namespace Heap

/-- Calls a method of the list at an address. -/
def listMethod (a : Nat) (m : Method) (args : List Value) (h : Heap) :
    Except Fault (Value × Heap) :=
  match m, args with
  | .push, [v] => .ok (.null, h.modifyList a (·.push v))
  | .pop, [] =>
    match (h.list a).back? with
    | some v => .ok (v, h.modifyList a Array.pop)
    | none => .error .emptyPop
  | .shift, [] =>
    match (h.list a)[0]? with
    | some v => .ok (v, h.modifyList a (·.eraseIdxIfInBounds 0))
    | none => .error .emptyPop
  | .unshift, [v] => .ok (.null, h.modifyList a (·.insertIdxIfInBounds 0 v))
  | .has, [v] => do return (.bool (← h.indexOf? v (h.list a).toList).isSome, h)
  | .indexOf, [v] => do
    match ← h.indexOf? v (h.list a).toList with
    | some i => return (.ofNat i, h)
    | none => return (.int (-1), h)
  | .remove, [v] => do
    match ← h.indexOf? v (h.list a).toList with
    | some i => return (.null, h.modifyList a (·.eraseIdxIfInBounds i))
    | none => throw .notFound
  | .discard, [v] => do
    match ← h.indexOf? v (h.list a).toList with
    | some i => return (.null, h.modifyList a (·.eraseIdxIfInBounds i))
    | none => return (.null, h)
  | .copy, [] => .ok (h.allocList (h.list a))
  | _, _ => .error (.noMethod m .list)

/-- Calls a method of the set at an address. -/
def setMethod (a : Nat) (m : Method) (args : List Value) (h : Heap) :
    Except Fault (Value × Heap) :=
  match m, args with
  | .add, [v] => do
    let key ← h.key v
    return (.null, h.modifySet a (·.insert key))
  | .has, [v] => do return (.bool ((h.set a).contains (← h.key v)), h)
  | .remove, [v] => do
    let key ← h.key v
    if (h.set a).contains key then return (.null, h.modifySet a (·.erase key))
    else throw .notMember
  | .discard, [v] => do
    let key ← h.key v
    return (.null, h.modifySet a (·.erase key))
  | .copy, [] => .ok (h.allocSet (h.set a))
  | _, _ => .error (.noMethod m .set)

/-- The value under a key of the map at an address, or a fallback. -/
def getOr (h : Heap) (a : Nat) (key fallback : Value) : Except Fault Value := do
  return (h.map a).getD (← h.key key) fallback

/-- Calls a method of the map at an address. -/
def mapMethod (a : Nat) (m : Method) (args : List Value) (h : Heap) :
    Except Fault (Value × Heap) :=
  match m, args with
  | .get, [k] => do return (← h.getOr a k .null, h)
  | .get, [k, fallback] => do return (← h.getOr a k fallback, h)
  | .put, [k, v] => do
    let key ← h.key k
    return (.null, h.modifyMap a (·.insert key v))
  | .has, [k] => do return (.bool ((h.map a).contains (← h.key k)), h)
  | .remove, [k] => do
    let key ← h.key k
    if (h.map a).contains key then return (.null, h.modifyMap a (·.erase key))
    else throw (h.missingKey k)
  | .discard, [k] => do
    let key ← h.key k
    return (.null, h.modifyMap a (·.erase key))
  | .keys, [] =>
    let (keys, h) := ofKeys (h.map a).keys #[] h
    .ok (h.allocList keys)
  | .values, [] => .ok (h.allocList (h.map a).values.toArray)
  | .copy, [] => .ok (h.allocMap (h.map a))
  | _, _ => .error (.noMethod m .map)

/-- Calls a method of a string. -/
def strMethod (s : String) (m : Method) (args : List Value) : Except Fault Value :=
  match m, args with
  | .has, [.str needle] => .ok (.bool (Text.find? needle.toList s.toList).isSome)
  | .indexOf, [.str needle] =>
    match Text.find? needle.toList s.toList with
    | some i => .ok (.ofNat i)
    | none => .ok (.int (-1))
  | _, [v] => .error (.argumentType m.bracedName .str v.type)
  | _, _ => .error (.noMethod m .str)

/-- Calls a method of a value. -/
def callMethod (receiver : Value) (m : Method) (args : List Value) (h : Heap) :
    Except Fault (Value × Heap) :=
  match receiver.type.methodArity? m with
  | none => .error (.noMethod m receiver.type)
  | some arity => do
    arity.check m.bracedName args.length
    match receiver with
    | .list a => h.listMethod a m args
    | .set a => h.setMethod a m args
    | .map a => h.mapMethod a m args
    | .str s => return (← strMethod s m args, h)
    | _ => throw (.noMethod m receiver.type)

end Heap

end Labyrinth
