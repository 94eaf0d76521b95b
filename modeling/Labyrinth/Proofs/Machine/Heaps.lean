import Labyrinth.Machine.Methods
import Mathlib.Data.List.Basic

/-!
# What collections keep

A program changes few of the lists that it makes; those that it may still change are **live**. All
others keep their elements, so what is known of them stays true.

## Main results

* `Heap.Keeps.trans`: what is kept by two changes is kept by one after the other.
* `Heap.IsList.keeps`: a list that is not live keeps its elements.
* `Heap.isList_allocList`: a new list is not live.
-/

namespace Labyrinth

namespace Heap

variable {h h' h'' : Heap} {live : List Nat} {a b : Nat} {items : Array Value} {v : Value}

/-! ### Single changes -/

@[simp]
theorem allocList_eq_iff :
    h.allocList items = (v, h') ↔ v = .list h.lists.size ∧ h' = (h.allocList items).2 := by
  rw [Prod.ext_iff]
  exact and_congr eq_comm eq_comm

@[simp]
theorem allocMap_eq_iff {entries : KeyMap} :
    h.allocMap entries = (v, h') ↔ v = .map h.maps.size ∧ h' = (h.allocMap entries).2 := by
  rw [Prod.ext_iff]
  exact and_congr eq_comm eq_comm

theorem size_allocList (h : Heap) (items : Array Value) :
    (h.allocList items).2.lists.size = h.lists.size + 1 := Array.size_push _

theorem list_allocList_eq (h : Heap) (items : Array Value) (a : Nat) :
    (h.allocList items).2.list a = if a = h.lists.size then items else h.list a := by
  by_cases ha : a = h.lists.size <;> simp [allocList, list, Array.getElem?_push, ha]

@[simp]
theorem list_allocList_size (h : Heap) (items : Array Value) :
    (h.allocList items).2.list h.lists.size = items := by
  rw [list_allocList_eq, if_pos rfl]

theorem list_allocList_of_lt (ha : a < h.lists.size) (items : Array Value) :
    (h.allocList items).2.list a = h.list a := by
  rw [list_allocList_eq, if_neg (Nat.ne_of_lt ha)]

theorem size_modifyList (h : Heap) (a : Nat) (f : Array Value → Array Value) :
    (h.modifyList a f).lists.size = h.lists.size := Array.size_modify

theorem list_modifyList_of_ne (hne : b ≠ a) (f : Array Value → Array Value) :
    (h.modifyList a f).list b = h.list b := by
  simp [modifyList, list, Array.getElem?_modify, hne.symm]

theorem size_modifyMap (h : Heap) (a : Nat) (f : KeyMap → KeyMap) :
    (h.modifyMap a f).maps.size = h.maps.size := Array.size_modify

theorem map_modifyMap (ha : a < h.maps.size) (f : KeyMap → KeyMap) :
    (h.modifyMap a f).map a = f (h.map a) := by
  simp [modifyMap, map, ha, Array.getElem_modify]

theorem size_allocMap (h : Heap) (entries : KeyMap) :
    (h.allocMap entries).2.maps.size = h.maps.size + 1 := Array.size_push _

theorem map_allocMap_size (h : Heap) (entries : KeyMap) :
    (h.allocMap entries).2.map h.maps.size = entries := by
  simp [allocMap, map]

theorem set_allocSet_eq (h : Heap) (members : KeySet) (a : Nat) :
    (h.allocSet members).2.set a = if a = h.sets.size then members else h.set a := by
  by_cases ha : a = h.sets.size <;> simp [allocSet, set, Array.getElem?_push, ha]

@[simp]
theorem lists_allocSet (h : Heap) (members : KeySet) : (h.allocSet members).2.lists = h.lists := rfl

@[simp]
theorem lists_allocMap (h : Heap) (entries : KeyMap) : (h.allocMap entries).2.lists = h.lists := rfl

theorem map_congr (hmaps : h'.maps = h.maps) (a : Nat) : h'.map a = h.map a := by
  rw [map, map, hmaps]

/-! ### Keys of a map -/

theorem contains_insert_iff {entries : KeyMap} {key k : Key} {v : Value} :
    (entries.insert key v).contains k = true ↔ key = k ∨ entries.contains k = true := by
  rw [Std.TreeMap.contains_insert, Bool.or_eq_true, beq_iff_eq, Std.LawfulEqCmp.compare_eq_iff_eq]

/-- A new key takes no value away. -/
theorem getElem?_insert_of_new {entries : KeyMap} {key k : Key} {v u : Value}
    (hkey : entries.contains key = false) (hk : entries[k]? = some u) :
    (entries.insert key v)[k]? = some u := by
  have hne : compare key k ≠ .eq := by
    rw [ne_eq, Std.LawfulEqCmp.compare_eq_iff_eq]
    rintro rfl
    rw [Std.TreeMap.contains_eq_isSome_getElem?, hk] at hkey
    cases hkey
  rw [Std.TreeMap.getElem?_insert, if_neg hne, hk]

/-! ### Lists that stay as they are -/

/-- All lists of a heap that are not live are the same in a later heap. -/
structure Keeps (live : List Nat) (h h' : Heap) : Prop where
  size_le : h.lists.size ≤ h'.lists.size
  list_eq : ∀ a < h.lists.size, a ∉ live → h'.list a = h.list a

theorem Keeps.refl (live : List Nat) (h : Heap) : h.Keeps live h :=
  ⟨Nat.le_refl _, fun _ _ _ => rfl⟩

theorem Keeps.trans (hk : h.Keeps live h') (hk' : h'.Keeps live h'') : h.Keeps live h'' where
  size_le := Nat.le_trans hk.size_le hk'.size_le
  list_eq a ha hlive :=
    (hk'.list_eq a (Nat.lt_of_lt_of_le ha hk.size_le) hlive).trans (hk.list_eq a ha hlive)

/-- Lists may be called live that have been kept. -/
theorem Keeps.mono {live' : List Nat} (hk : h.Keeps live h') (hlive : live ⊆ live') :
    h.Keeps live' h' :=
  ⟨hk.size_le, fun a ha hmem => hk.list_eq a ha fun h => hmem (hlive h)⟩

/-- Where all lists are kept, those that are not live are. -/
theorem Keeps.of_nil (hk : h.Keeps [] h') (live : List Nat) : h.Keeps live h' :=
  hk.mono (List.nil_subset live)

/-- A list that is made later need not be called live. -/
theorem Keeps.of_cons (hk : h.Keeps (a :: live) h') (ha : h.lists.size ≤ a) : h.Keeps live h' where
  size_le := hk.size_le
  list_eq b hb hlive := by
    have hne : b ≠ a := Nat.ne_of_lt (Nat.lt_of_lt_of_le hb ha)
    exact hk.list_eq b hb (List.not_mem_cons_of_ne_of_not_mem hne hlive)

theorem keeps_allocList (live : List Nat) (h : Heap) (items : Array Value) :
    h.Keeps live (h.allocList items).2 where
  size_le := h.size_allocList items ▸ Nat.le_succ _
  list_eq _ ha _ := list_allocList_of_lt ha items

theorem keeps_modifyList (ha : a ∈ live) (h : Heap) (f : Array Value → Array Value) :
    h.Keeps live (h.modifyList a f) where
  size_le := Nat.le_of_eq (h.size_modifyList a f).symm
  list_eq _ _ hlive := list_modifyList_of_ne (ne_of_mem_of_not_mem ha hlive).symm f

theorem keeps_of_lists_eq (hlists : h'.lists = h.lists) : h.Keeps live h' where
  size_le := Nat.le_of_eq (congrArg Array.size hlists).symm
  list_eq a _ _ := by rw [list, list, hlists]

theorem keeps_modifyMap (live : List Nat) (h : Heap) (a : Nat) (f : KeyMap → KeyMap) :
    h.Keeps live (h.modifyMap a f) := keeps_of_lists_eq rfl

/-- The live lists have been made. -/
def Has (h : Heap) (live : List Nat) : Prop := ∀ a ∈ live, a < h.lists.size

theorem Has.keeps {live' : List Nat} (hlive : h.Has live) (hk : h.Keeps live' h') : h'.Has live :=
  fun a ha => Nat.lt_of_lt_of_le (hlive a ha) hk.size_le

theorem Has.cons_allocList (hlive : h.Has live) (items : Array Value) :
    (h.allocList items).2.Has (h.lists.size :: live) := by
  rw [Has, size_allocList]
  exact List.forall_mem_cons.2 ⟨Nat.lt_succ_self _, fun a ha => Nat.lt_succ_of_lt (hlive a ha)⟩

/-- A value is a list that is not live and has given elements. -/
def IsList (h : Heap) (live : List Nat) (v : Value) (items : Array Value) : Prop :=
  ∃ a, v = .list a ∧ a < h.lists.size ∧ a ∉ live ∧ h.list a = items

theorem IsList.keeps (hv : h.IsList live v items) (hk : h.Keeps live h') :
    h'.IsList live v items := by
  obtain ⟨a, rfl, ha, hlive, rfl⟩ := hv
  exact ⟨a, rfl, Nat.lt_of_lt_of_le ha hk.size_le, hlive, hk.list_eq a ha hlive⟩

theorem IsList.of_cons (hv : h.IsList (a :: live) v items) : h.IsList live v items := by
  obtain ⟨b, rfl, hb, hlive, rfl⟩ := hv
  exact ⟨b, rfl, hb, List.not_mem_of_not_mem_cons hlive, rfl⟩

/-- A list that has been made is not the one that is made next. -/
theorem IsList.cons_size (hv : h.IsList live v items) :
    h.IsList (h.lists.size :: live) v items := by
  obtain ⟨b, rfl, hb, hlive, rfl⟩ := hv
  exact ⟨b, rfl, hb, List.not_mem_cons_of_ne_of_not_mem (Nat.ne_of_lt hb) hlive, rfl⟩

/-- A new list is not live. -/
theorem isList_allocList (hlive : h.Has live) (items : Array Value) :
    (h.allocList items).2.IsList live (h.allocList items).1 items :=
  ⟨h.lists.size, rfl, by rw [size_allocList]; exact Nat.lt_succ_self _,
    fun hmem => Nat.lt_irrefl _ (hlive _ hmem), list_allocList_size h items⟩

/-! ### Operations -/

/-- An element of a list is read by its position. -/
theorem loadIndex_list {i : Int64} {n : Nat} (hi : i.toInt = n) (hn : (h.list a)[n]? = some v) :
    h.loadIndex (.list a) (.int i) = .ok v := by
  obtain ⟨hlt, hget⟩ := Array.getElem?_eq_some_iff.1 hn
  have hslot : slot i (h.list a).size = .ok ⟨n, hlt⟩ := by
    have hnonneg : ¬i < 0 := by
      rw [Int64.lt_iff_toInt_lt, hi, Int64.toInt_zero]
      omega
    rw [slot_eq_ok_iff, if_neg hnonneg, hi]
  rw [loadIndex, sequenceIndex]
  simp only [bind, Except.bind, hslot]
  exact congrArg Except.ok hget

section Operations

variable {key : Key} {k : Value} {m : Nat}

@[simp]
theorem truthy_bool (h : Heap) (b : Bool) : h.truthy (.bool b) = b := rfl

@[simp]
theorem unary_not (h : Heap) (v : Value) : h.unary .not v = .ok (.bool !h.truthy v) := rfl

theorem binary_add_int {x y z : Int64} (hz : Integer.checked (x.toInt + y.toInt) = .ok z)
    (h : Heap) : h.binary .add (.int x) (.int y) = .ok (.int z, h) := by
  simp only [binary, add, hz]
  rfl

@[simp]
theorem binary_gt_int (h : Heap) (x y : Int64) :
    h.binary .gt (.int x) (.int y) = .ok (.bool (compare x y).isGT, h) := rfl

@[simp]
theorem builtin_len (h : Heap) (a : Nat) :
    h.builtin .len [.list a] = .ok (.int (Int64.ofNat (h.list a).size), h) := rfl

@[simp]
theorem binary_ne_list_null (h : Heap) (a : Nat) :
    h.binary .ne (.list a) .null = .ok (.bool true, h) := rfl

@[simp]
theorem binary_ne_null_null (h : Heap) : h.binary .ne .null .null = .ok (.bool false, h) := rfl

@[simp]
theorem binary_eq_str (h : Heap) (s t : String) :
    h.binary .eq (.str s) (.str t) = .ok (.bool (s == t), h) := rfl

@[simp]
theorem callMethod_push (h : Heap) (a : Nat) (v : Value) :
    h.callMethod (.list a) .push [v] = .ok (.null, h.modifyList a (·.push v)) := rfl

@[simp]
theorem callMethod_unshift (h : Heap) (a : Nat) (v : Value) :
    h.callMethod (.list a) .unshift [v] =
      .ok (.null, h.modifyList a (·.insertIdxIfInBounds 0 v)) := rfl

theorem callMethod_shift (hv : (h.list a)[0]? = some v) :
    h.callMethod (.list a) .shift [] =
      .ok (v, h.modifyList a (·.eraseIdxIfInBounds 0)) := by
  have hshift : h.listMethod a .shift [] = .ok (v, h.modifyList a (·.eraseIdxIfInBounds 0)) := by
    rw [listMethod, hv]
  exact hshift

theorem callMethod_has (hk : h.key k = .ok key) :
    h.callMethod (.map m) .has [k] = .ok (.bool ((h.map m).contains key), h) := by
  have hhas : h.mapMethod m .has [k] = .ok (.bool ((h.map m).contains key), h) := by
    rw [mapMethod, hk]
    rfl
  exact hhas

theorem callMethod_set_has (hk : h.key k = .ok key) :
    h.callMethod (.set a) .has [k] = .ok (.bool ((h.set a).contains key), h) := by
  have hhas : h.setMethod a .has [k] = .ok (.bool ((h.set a).contains key), h) := by
    rw [setMethod, hk]
    rfl
  exact hhas

theorem callMethod_put (hk : h.key k = .ok key) (v : Value) :
    h.callMethod (.map m) .put [k, v] = .ok (.null, h.modifyMap m (·.insert key v)) := by
  have hput : h.mapMethod m .put [k, v] = .ok (.null, h.modifyMap m (·.insert key v)) := by
    rw [mapMethod, hk]
    rfl
  exact hput

theorem callMethod_get (hk : h.key k = .ok key) (hv : (h.map m)[key]? = some v) :
    h.callMethod (.map m) .get [k] = .ok (v, h) := by
  have hget : h.mapMethod m .get [k] = .ok (v, h) := by
    rw [mapMethod, getOr, hk]
    simp [hv, Std.TreeMap.getD_eq_getD_getElem?]
  exact hget

theorem loadIndex_map (hk : h.key k = .ok key) (hv : (h.map m)[key]? = some v) :
    h.loadIndex (.map m) k = .ok v := by
  simp [loadIndex, hk, hv, bind, Except.bind, pure, Except.pure]

theorem storeIndex_map (hk : h.key k = .ok key) (v : Value) :
    h.storeIndex (.map m) k v = .ok (h.modifyMap m (·.insert key v)) := by
  rw [storeIndex, hk]
  rfl

theorem loadAttribute_map {text : String} (hv : (h.map m)[Key.str text]? = some v) :
    h.loadAttribute (.map m) text = .ok v := by
  simp [loadAttribute, hv]

/-- A map with one entry. -/
theorem buildMap_singleton (hb : h.list b = #[.list a]) (ha : h.list a = #[k, v])
    (hk : h.key k = .ok key) :
    h.buildMap (.list b) = .ok (h.allocMap ((∅ : KeyMap).insert key v)) := by
  simp [buildMap, elements, hb, bindAll, ha, hk, bind, Except.bind, pure, Except.pure]

end Operations

end Heap

end Labyrinth
