import Labyrinth.Proofs.Machine.Invariants
import Labyrinth.Proofs.Machine.KeyOrder
import Labyrinth.Proofs.Machine.Keys
import Mathlib.Data.Finmap
import Mathlib.Data.Finset.Sort

/-!
# The contents of sets and maps

What programs can see of a set is a finite set of keys, and what they can see of a map is a finite
map from keys to values. Every operation changes these **contents** as the operation of its name
does, every answer is read off them, and whatever lists a set or a map goes through its keys in
increasing order. The order in which keys have been put in is forgotten.

## Main results

* `Heap.Performs.contents_eq`, `Heap.Runs.contents_eq`: what operations make of the contents.
* `Heap.Made.invariant`: a program does nothing else to its sets and maps.
-/

namespace Labyrinth

/-- A finite map from keys to values. -/
abbrev KeyBindings := Finmap fun _ : Key => Value

/-! ### Single collections -/

section Collections

variable {members : KeySet} {entries : KeyMap} {k l : Key} {v : Value}

/-- The keys in a set. -/
def keysOf (members : KeySet) : Finset Key := members.toList.toFinset

/-- What a map binds. -/
def bindingsOf (entries : KeyMap) : KeyBindings :=
  (entries.toList.map fun e => ⟨e.1, e.2⟩).toFinmap

@[simp]
theorem mem_keysOf : k ∈ keysOf members ↔ k ∈ members := by
  rw [keysOf, List.mem_toFinset, Std.TreeSet.mem_toList]

theorem pairwise_lt_toList (members : KeySet) : members.toList.Pairwise (· < ·) :=
  Std.TreeSet.ordered_toList (t := members)

theorem sort_keysOf (members : KeySet) : (keysOf members).sort = members.toList := by
  have hlt := pairwise_lt_toList members
  exact (List.toFinset_sort _ (hlt.imp ne_of_lt)).2 (hlt.imp le_of_lt)

theorem card_keysOf (members : KeySet) : (keysOf members).card = members.size := by
  rw [keysOf, List.toFinset_card_of_nodup ((pairwise_lt_toList members).imp ne_of_lt),
    Std.TreeSet.length_toList]

theorem keysOf_empty : keysOf ∅ = ∅ := by
  ext k
  rw [mem_keysOf]
  exact iff_of_false Std.TreeSet.not_mem_emptyc (Finset.notMem_empty k)

theorem keysOf_insert : keysOf (members.insert k) = insert k (keysOf members) := by
  ext l
  rw [mem_keysOf, Std.TreeSet.mem_insert, Std.LawfulEqCmp.compare_eq_iff_eq, Finset.mem_insert,
    mem_keysOf, eq_comm]

theorem keysOf_erase : keysOf (members.erase k) = (keysOf members).erase k := by
  ext l
  rw [mem_keysOf, Std.TreeSet.mem_erase, ne_eq, Std.LawfulEqCmp.compare_eq_iff_eq,
    Finset.mem_erase, mem_keysOf, ne_comm]

theorem keysOf_insertMany (ks : List Key) : keysOf ((∅ : KeySet).insertMany ks) = ks.toFinset := by
  ext k
  rw [mem_keysOf, Std.TreeSet.mem_insertMany_list, List.mem_toFinset, List.contains_iff_mem]
  exact or_iff_right Std.TreeSet.not_mem_emptyc

theorem pairwise_lt_keys (entries : KeyMap) : entries.keys.Pairwise (· < ·) :=
  Std.TreeMap.ordered_keys (t := entries)

@[simp]
theorem lookup_bindingsOf (entries : KeyMap) (k : Key) :
    (bindingsOf entries).lookup k = entries[k]? := by
  have hkeys : (entries.toList.map fun e =>
      (⟨e.1, e.2⟩ : Sigma fun _ : Key => Value)).NodupKeys := by
    have hnodup := (pairwise_lt_keys entries).imp ne_of_lt
    rw [← Std.TreeMap.map_fst_toList_eq_keys, List.pairwise_map] at hnodup
    rw [List.nodupKeys_iff_pairwise, List.pairwise_map]
    exact hnodup
  ext v
  rw [bindingsOf, Finmap.dlookup_list_toFinmap, ← Option.mem_def,
    List.mem_dlookup_iff hkeys, ← Std.TreeMap.mem_toList_iff_getElem?_eq_some, List.mem_map]
  constructor
  · rintro ⟨e, he, heq⟩
    cases heq
    exact he
  · exact fun he => ⟨_, he, rfl⟩

theorem mem_keys_bindingsOf : k ∈ (bindingsOf entries).keys ↔ k ∈ entries := by
  rw [Finmap.mem_keys, ← Finmap.lookup_isSome, lookup_bindingsOf,
    ← Std.TreeMap.contains_eq_isSome_getElem?, Std.TreeMap.contains_iff_mem]

theorem keys_bindingsOf (entries : KeyMap) : (bindingsOf entries).keys = entries.keys.toFinset := by
  ext k
  rw [mem_keys_bindingsOf, List.mem_toFinset, Std.TreeMap.mem_keys]

theorem sort_keys_bindingsOf (entries : KeyMap) :
    (bindingsOf entries).keys.sort = entries.keys := by
  have hlt := pairwise_lt_keys entries
  rw [keys_bindingsOf]
  exact (List.toFinset_sort _ (hlt.imp ne_of_lt)).2 (hlt.imp le_of_lt)

theorem card_keys_bindingsOf (entries : KeyMap) :
    (bindingsOf entries).keys.card = entries.size := by
  rw [keys_bindingsOf, List.toFinset_card_of_nodup ((pairwise_lt_keys entries).imp ne_of_lt),
    Std.TreeMap.length_keys]

theorem bindingsOf_empty : bindingsOf ∅ = ∅ :=
  Finmap.ext_lookup fun k => by
    rw [lookup_bindingsOf, Std.TreeMap.getElem?_emptyc, Finmap.lookup_empty]

theorem bindingsOf_insert : bindingsOf (entries.insert k v) = (bindingsOf entries).insert k v := by
  refine Finmap.ext_lookup fun l => ?_
  rw [lookup_bindingsOf, Std.TreeMap.getElem?_insert]
  split
  · next heq =>
    rw [← Std.LawfulEqCmp.compare_eq_iff_eq.1 heq, Finmap.lookup_insert]
  · next hne =>
    rw [Std.LawfulEqCmp.compare_eq_iff_eq] at hne
    rw [Finmap.lookup_insert_of_ne _ (Ne.symm hne), lookup_bindingsOf]

theorem bindingsOf_erase : bindingsOf (entries.erase k) = (bindingsOf entries).erase k := by
  refine Finmap.ext_lookup fun l => ?_
  rw [lookup_bindingsOf, Std.TreeMap.getElem?_erase]
  split
  · next heq =>
    rw [← Std.LawfulEqCmp.compare_eq_iff_eq.1 heq, Finmap.lookup_erase]
  · next hne =>
    rw [Std.LawfulEqCmp.compare_eq_iff_eq] at hne
    rw [Finmap.lookup_erase_ne (Ne.symm hne), lookup_bindingsOf]

/-- The bindings of several entries, of which a later one replaces an earlier one. -/
def bindAll (bindings : KeyBindings) (es : List (Key × Value)) : KeyBindings :=
  es.foldl (fun bindings e => bindings.insert e.1 e.2) bindings

theorem bindingsOf_insertMany (entries : KeyMap) (es : List (Key × Value)) :
    bindingsOf (entries.insertMany es) = bindAll (bindingsOf entries) es := by
  induction es generalizing entries with
  | nil => rw [Std.TreeMap.insertMany_nil, bindAll, List.foldl_nil]
  | cons e es ih => rw [Std.TreeMap.insertMany_cons, ih, bindingsOf_insert, bindAll, bindAll,
      List.foldl_cons]

/-- The entries of a finite map in the order of their keys. -/
def entriesOf (bindings : KeyBindings) : List (Key × Value) :=
  bindings.keys.sort.filterMap fun k => (bindings.lookup k).map (k, ·)

theorem entriesOf_bindingsOf (entries : KeyMap) :
    entriesOf (bindingsOf entries) = entries.toList := by
  rw [entriesOf, sort_keys_bindingsOf, ← Std.TreeMap.map_fst_toList_eq_keys, List.filterMap_map]
  have hsome : ∀ e ∈ entries.toList,
      ((fun k => ((bindingsOf entries).lookup k).map (k, ·)) ∘ Prod.fst) e = some e := by
    intro e he
    rw [Function.comp_apply, lookup_bindingsOf, Std.TreeMap.mem_toList_iff_getElem?_eq_some.1 he]
    rfl
  rw [List.filterMap_congr hsome, List.filterMap_some]

/-- The entries of a finite map are listed in the order of its keys. -/
theorem map_fst_entriesOf (b : KeyBindings) : (entriesOf b).map Prod.fst = b.keys.sort := by
  have hsome : ∀ k ∈ b.keys.sort, ((b.lookup k).map (k, ·)).map Prod.fst = some k := by
    intro k hk
    obtain ⟨v, hv⟩ := Finmap.mem_iff.1 (Finmap.mem_keys.1 (Finset.mem_sort _ |>.1 hk))
    rw [hv]
    rfl
  rw [entriesOf, List.map_filterMap, List.filterMap_congr hsome, List.filterMap_some]

theorem mem_entriesOf (b : KeyBindings) (e : Key × Value) :
    e ∈ entriesOf b ↔ b.lookup e.1 = some e.2 := by
  obtain ⟨k, v⟩ := e
  rw [entriesOf, List.mem_filterMap]
  constructor
  · rintro ⟨l, -, he⟩
    obtain ⟨u, hu, he⟩ := Option.map_eq_some_iff.1 he
    cases he
    exact hu
  · intro hv
    refine ⟨k, (Finset.mem_sort _).2 (Finmap.mem_keys.2 (Finmap.mem_of_lookup_eq_some hv)), ?_⟩
    rw [hv]
    rfl

/-- The keys of a finite set are sorted in increasing order. -/
theorem sort_precedes (s : Finset Key) : s.sort.Pairwise Key.Precedes :=
  (Finset.sortedLT_sort s).pairwise.imp Key.compare_eq_lt_iff.1

theorem values_eq (entries : KeyMap) : entries.values = entries.toList.map Prod.snd := by
  have hvalues : entries.values = entries.foldr (fun _ v vs => v :: vs) [] := rfl
  rw [hvalues, Std.TreeMap.foldr_eq_foldr_toList, List.foldr_cons_eq_append, List.append_nil]

end Collections

/-! ### Contents -/

/-- What all sets and maps contain. -/
structure Contents where
  sets : List (Finset Key)
  maps : List KeyBindings

namespace Contents

/-- There are no sets and no maps. -/
def empty : Contents := ⟨[], []⟩

/-- The members of the set at an address. -/
def set (c : Contents) (a : Nat) : Finset Key := c.sets[a]?.getD ∅

/-- What the map at an address binds. -/
def map (c : Contents) (a : Nat) : KeyBindings := c.maps[a]?.getD ∅

/-- A change of the contents. -/
inductive Edit
  /-- A new set of some keys. -/
  | makeSet (members : List Key)
  /-- A new map with some entries, of which a later one replaces an earlier one. -/
  | makeMap (entries : List (Key × Value))
  /-- A new set with the members of another one. -/
  | copySet (a : Nat)
  /-- A new map with the entries of another one. -/
  | copyMap (a : Nat)
  | insert (a : Nat) (k : Key)
  | erase (a : Nat) (k : Key)
  | bind (a : Nat) (k : Key) (v : Value)
  | unbind (a : Nat) (k : Key)

/-- The contents after a change. -/
def edit (c : Contents) : Edit → Contents
  | .makeSet members => ⟨c.sets ++ [members.toFinset], c.maps⟩
  | .makeMap entries => ⟨c.sets, c.maps ++ [bindAll ∅ entries]⟩
  | .copySet a => ⟨c.sets ++ [c.set a], c.maps⟩
  | .copyMap a => ⟨c.sets, c.maps ++ [c.map a]⟩
  | .insert a k => ⟨c.sets.modify a (Insert.insert k), c.maps⟩
  | .erase a k => ⟨c.sets.modify a (Finset.erase · k), c.maps⟩
  | .bind a k v => ⟨c.sets, c.maps.modify a (Finmap.insert k v)⟩
  | .unbind a k => ⟨c.sets, c.maps.modify a (Finmap.erase k)⟩

/-- The contents after several changes. -/
def edits (c : Contents) (es : List Edit) : Contents := es.foldl edit c

end Contents

namespace Heap

variable {h h' h₁ : Heap} {a : Nat} {k : Key} {u v w r : Value} {e : Contents.Edit}

/-- The contents of the sets and maps of a heap. -/
def contents (h : Heap) : Contents := ⟨h.sets.toList.map keysOf, h.maps.toList.map bindingsOf⟩

theorem contents_set (h : Heap) (a : Nat) : h.contents.set a = keysOf (h.set a) := by
  rw [Contents.set, contents, List.getElem?_map, Array.getElem?_toList, set]
  cases h.sets[a]? with
  | none => exact keysOf_empty.symm
  | some members => rfl

theorem contents_map (h : Heap) (a : Nat) : h.contents.map a = bindingsOf (h.map a) := by
  rw [Contents.map, contents, List.getElem?_map, Array.getElem?_toList, map]
  cases h.maps[a]? with
  | none => exact bindingsOf_empty.symm
  | some entries => rfl

theorem contents_allocSet (members : KeySet) :
    (h.allocSet members).2.contents = ⟨h.contents.sets ++ [keysOf members], h.contents.maps⟩ := by
  simp [contents, allocSet]

theorem contents_allocMap (entries : KeyMap) :
    (h.allocMap entries).2.contents =
      ⟨h.contents.sets, h.contents.maps ++ [bindingsOf entries]⟩ := by
  simp [contents, allocMap]

theorem map_modify {α β : Type} (g : α → β) {f : α → α} {f' : β → β} (hf : ∀ x, g (f x) = f' (g x))
    (xs : List α) (a : Nat) : (xs.modify a f).map g = (xs.map g).modify a f' := by
  induction xs generalizing a with
  | nil => rw [List.modify_nil, List.map_nil, List.modify_nil]
  | cons x xs ih =>
    cases a with
    | zero => simp only [List.modify_zero_cons, List.map_cons, hf]
    | succ a => simp only [List.modify_succ_cons, List.map_cons, ih]

theorem contents_modifySet {f : KeySet → KeySet} {f' : Finset Key → Finset Key}
    (hf : ∀ members, keysOf (f members) = f' (keysOf members)) :
    (h.modifySet a f).contents = ⟨h.contents.sets.modify a f', h.contents.maps⟩ := by
  simp only [contents, modifySet, Array.toList_modify, map_modify keysOf hf]

theorem contents_modifyMap {f : KeyMap → KeyMap} {f' : KeyBindings → KeyBindings}
    (hf : ∀ entries, bindingsOf (f entries) = f' (bindingsOf entries)) :
    (h.modifyMap a f).contents = ⟨h.contents.sets, h.contents.maps.modify a f'⟩ := by
  simp only [contents, modifyMap, Array.toList_modify, map_modify bindingsOf hf]

/-! ### Operations -/

section Calls

variable (hk : h.key u = .ok k)
include hk

theorem callMethod_add (a : Nat) :
    h.callMethod (.set a) .add [u] = .ok (.null, h.modifySet a (·.insert k)) := by
  have hadd : h.setMethod a .add [u] = .ok (.null, h.modifySet a (·.insert k)) := by
    rw [setMethod, hk]
    rfl
  exact hadd

theorem callMethod_removeMember (a : Nat) :
    h.callMethod (.set a) .remove [u] =
      if k ∈ h.contents.set a then .ok (.null, h.modifySet a (·.erase k))
      else .error .notMember := by
  have hremove : h.setMethod a .remove [u] =
      if (h.set a).contains k then .ok (.null, h.modifySet a (·.erase k))
      else .error .notMember := by
    rw [setMethod, hk]
    rfl
  simp only [contents_set, mem_keysOf, ← Std.TreeSet.contains_iff_mem]
  exact hremove

theorem callMethod_discardMember (a : Nat) :
    h.callMethod (.set a) .discard [u] = .ok (.null, h.modifySet a (·.erase k)) := by
  have hdiscard : h.setMethod a .discard [u] = .ok (.null, h.modifySet a (·.erase k)) := by
    rw [setMethod, hk]
    rfl
  exact hdiscard

theorem callMethod_removeKey (a : Nat) :
    h.callMethod (.map a) .remove [u] =
      if k ∈ (h.contents.map a).keys then .ok (.null, h.modifyMap a (·.erase k))
      else .error (h.missingKey u) := by
  have hremove : h.mapMethod a .remove [u] =
      if (h.map a).contains k then .ok (.null, h.modifyMap a (·.erase k))
      else .error (h.missingKey u) := by
    rw [mapMethod, hk]
    rfl
  simp only [contents_map, mem_keys_bindingsOf, ← Std.TreeMap.contains_iff_mem]
  exact hremove

theorem callMethod_discardKey (a : Nat) :
    h.callMethod (.map a) .discard [u] = .ok (.null, h.modifyMap a (·.erase k)) := by
  have hdiscard : h.mapMethod a .discard [u] = .ok (.null, h.modifyMap a (·.erase k)) := by
    rw [mapMethod, hk]
    rfl
  exact hdiscard

theorem callMethod_getOr (a : Nat) (w : Value) :
    h.callMethod (.map a) .get [u, w] = .ok (((h.contents.map a).lookup k).getD w, h) := by
  have hget : h.mapMethod a .get [u, w] = .ok ((h.map a).getD k w, h) := by
    rw [mapMethod, getOr, hk]
    rfl
  rw [contents_map, lookup_bindingsOf, ← Std.TreeMap.getD_eq_getD_getElem?]
  exact hget

end Calls

/-- The elements of a value are made of lists. -/
theorem contents_elements {source : Value} {vs : List Value}
    (hvs : h.elements source = .ok (vs, h₁)) : h₁.sets = h.sets ∧ h₁.maps = h.maps := by
  cases source with
  | list a | str a =>
    cases hvs
    exact ⟨rfl, rfl⟩
  | set a | map a =>
    cases hvs
    exact collections_ofKeys _ _ _
  | _ => cases hvs

theorem contents_congr (hsets : h'.sets = h.sets) (hmaps : h'.maps = h.maps) :
    h'.contents = h.contents := by
  rw [contents, contents, hsets, hmaps]

/-- An operation of a program that changes the contents of a set or a map, or makes a new one, with
arguments that have keys. -/
inductive Performs : Heap → Contents.Edit → Heap → Prop
  | emptySet {h h' : Heap} {r : Value} : h.buildSet .null = .ok (r, h') →
    Performs h (.makeSet []) h'
  | buildSet {h h₁ h' : Heap} {source r : Value} {vs : List Value} {ks : List Key} :
    h.elements source = .ok (vs, h₁) → List.Forall₂ (fun v k => h₁.key v = .ok k) vs ks →
    h.buildSet source = .ok (r, h') → Performs h (.makeSet ks) h'
  | emptyMap {h h' : Heap} {r : Value} : h.buildMap .null = .ok (r, h') →
    Performs h (.makeMap []) h'
  | buildMap {h h₁ h' : Heap} {source r : Value} {pairs : List Value}
    {entries : List (Key × Value)} :
    h.elements source = .ok (pairs, h₁) → List.Forall₂ h₁.IsEntry pairs entries →
    h.buildMap source = .ok (r, h') → Performs h (.makeMap entries) h'
  /-- The position of the cursor is a map, too. -/
  | position {h : Heap} (w : World) :
    Performs h (.makeMap [(.str "x", .ofNat w.position.column.toNat),
      (.str "y", .ofNat w.position.row.toNat)]) (h.allocMap (Action.positionMap w)).2
  | copySet {h h' : Heap} {r : Value} {a : Nat} :
    h.callMethod (.set a) .copy [] = .ok (r, h') → Performs h (.copySet a) h'
  | copyMap {h h' : Heap} {r : Value} {a : Nat} :
    h.callMethod (.map a) .copy [] = .ok (r, h') → Performs h (.copyMap a) h'
  | add {h h' : Heap} {r v : Value} {k : Key} {a : Nat} : h.key v = .ok k →
    h.callMethod (.set a) .add [v] = .ok (r, h') → Performs h (.insert a k) h'
  | removeMember {h h' : Heap} {r v : Value} {k : Key} {a : Nat} : h.key v = .ok k →
    h.callMethod (.set a) .remove [v] = .ok (r, h') → Performs h (.erase a k) h'
  | discardMember {h h' : Heap} {r v : Value} {k : Key} {a : Nat} : h.key v = .ok k →
    h.callMethod (.set a) .discard [v] = .ok (r, h') → Performs h (.erase a k) h'
  | put {h h' : Heap} {r u v : Value} {k : Key} {a : Nat} : h.key u = .ok k →
    h.callMethod (.map a) .put [u, v] = .ok (r, h') → Performs h (.bind a k v) h'
  | storeIndex {h h' : Heap} {u v : Value} {k : Key} {a : Nat} : h.key u = .ok k →
    h.storeIndex (.map a) u v = .ok h' → Performs h (.bind a k v) h'
  | removeKey {h h' : Heap} {r u : Value} {k : Key} {a : Nat} : h.key u = .ok k →
    h.callMethod (.map a) .remove [u] = .ok (r, h') → Performs h (.unbind a k) h'
  | discardKey {h h' : Heap} {r u : Value} {k : Key} {a : Nat} : h.key u = .ok k →
    h.callMethod (.map a) .discard [u] = .ok (r, h') → Performs h (.unbind a k) h'

/-- Operations that change the contents in a given way, one after the other, between which lists may
have been changed and made. -/
inductive Runs : Heap → List Contents.Edit → Heap → Prop
  | refl (h : Heap) : Runs h [] h
  | perform {h h₁ h' : Heap} {es : List Contents.Edit} {e : Contents.Edit} :
    Runs h es h₁ → Performs h₁ e h' → Runs h (es ++ [e]) h'
  | elsewhere {h h₁ h' : Heap} {es : List Contents.Edit} :
    Runs h es h₁ → h'.sets = h₁.sets → h'.maps = h₁.maps → Runs h es h'

theorem contents_insertMember (a : Nat) (k : Key) :
    (h.modifySet a (·.insert k)).contents = h.contents.edit (.insert a k) :=
  contents_modifySet fun _ => keysOf_insert

theorem contents_eraseMember (a : Nat) (k : Key) :
    (h.modifySet a (·.erase k)).contents = h.contents.edit (.erase a k) :=
  contents_modifySet fun _ => keysOf_erase

theorem contents_insertEntry (a : Nat) (k : Key) (v : Value) :
    (h.modifyMap a (·.insert k v)).contents = h.contents.edit (.bind a k v) :=
  contents_modifyMap fun _ => bindingsOf_insert

theorem contents_eraseEntry (a : Nat) (k : Key) :
    (h.modifyMap a (·.erase k)).contents = h.contents.edit (.unbind a k) :=
  contents_modifyMap fun _ => bindingsOf_erase

theorem contents_makeSet (ks : List Key) :
    (h.allocSet ((∅ : KeySet).insertMany ks)).2.contents = h.contents.edit (.makeSet ks) := by
  rw [contents_allocSet, keysOf_insertMany]
  rfl

theorem contents_makeMap (es : List (Key × Value)) :
    (h.allocMap ((∅ : KeyMap).insertMany es)).2.contents = h.contents.edit (.makeMap es) := by
  rw [contents_allocMap, bindingsOf_insertMany, bindingsOf_empty]
  rfl

theorem contents_copySet (a : Nat) :
    (h.allocSet (h.set a)).2.contents = h.contents.edit (.copySet a) := by
  rw [contents_allocSet, ← contents_set]
  rfl

theorem contents_copyMap (a : Nat) :
    (h.allocMap (h.map a)).2.contents = h.contents.edit (.copyMap a) := by
  rw [contents_allocMap, ← contents_map]
  rfl

/-- What an operation makes of the contents. -/
theorem Performs.contents_eq (he : h.Performs e h') : h'.contents = h.contents.edit e := by
  cases he with
  | emptySet hr =>
    cases hr
    exact contents_makeSet []
  | buildSet hvs hks hr =>
    rw [buildSet_of_keys hvs hks] at hr
    cases hr
    obtain ⟨hsets, hmaps⟩ := contents_elements hvs
    rw [← contents_congr hsets hmaps]
    exact contents_makeSet _
  | emptyMap hr =>
    cases hr
    exact contents_makeMap []
  | buildMap hpairs hes hr =>
    rw [buildMap_of_entries hpairs hes] at hr
    cases hr
    obtain ⟨hsets, hmaps⟩ := contents_elements hpairs
    rw [← contents_congr hsets hmaps]
    exact contents_makeMap _
  | position w =>
    rw [← contents_makeMap, Std.TreeMap.insertMany_cons, Std.TreeMap.insertMany_cons,
      Std.TreeMap.insertMany_nil]
    rfl
  | copySet hr =>
    cases hr
    exact contents_copySet _
  | copyMap hr =>
    cases hr
    exact contents_copyMap _
  | add hk hr =>
    rw [callMethod_add hk] at hr
    cases hr
    exact contents_insertMember _ _
  | removeMember hk hr =>
    rw [callMethod_removeMember hk] at hr
    split at hr
    · cases hr
      exact contents_eraseMember _ _
    · cases hr
  | discardMember hk hr =>
    rw [callMethod_discardMember hk] at hr
    cases hr
    exact contents_eraseMember _ _
  | put hk hr =>
    rw [callMethod_put hk] at hr
    cases hr
    exact contents_insertEntry _ _ _
  | storeIndex hk hr =>
    rw [storeIndex_map hk] at hr
    cases hr
    exact contents_insertEntry _ _ _
  | removeKey hk hr =>
    rw [callMethod_removeKey hk] at hr
    split at hr
    · cases hr
      exact contents_eraseEntry _ _
    · cases hr
  | discardKey hk hr =>
    rw [callMethod_discardKey hk] at hr
    cases hr
    exact contents_eraseEntry _ _

/-- What a sequence of operations makes of the contents. -/
theorem Runs.contents_eq {es : List Contents.Edit} (hes : h.Runs es h') :
    h'.contents = h.contents.edits es := by
  induction hes with
  | refl => rfl
  | perform _ he ih => rw [he.contents_eq, ih, Contents.edits, Contents.edits, List.foldl_concat]
  | elsewhere _ hsets hmaps ih => rw [contents_congr hsets hmaps, ih]

/-! ### Programs -/

/-- A heap has come about by operations on sets and maps, and by changes of lists. -/
def Made (h : Heap) : Prop := ∃ es, Heap.empty.Runs es h

namespace Made

theorem empty : Heap.empty.Made := ⟨[], .refl _⟩

theorem perform (hh : h.Made) (he : h.Performs e h') : h'.Made := by
  obtain ⟨es, hes⟩ := hh
  exact ⟨es ++ [e], hes.perform he⟩

theorem elsewhere (hh : h.Made) (hsets : h'.sets = h.sets) (hmaps : h'.maps = h.maps) :
    h'.Made := by
  obtain ⟨es, hes⟩ := hh
  exact ⟨es, hes.elsewhere hsets hmaps⟩

theorem elements (hh : h.Made) (source : Value) : LeavesHeap Made (h.elements source) := by
  intro vs h₁ hvs
  obtain ⟨hsets, hmaps⟩ := contents_elements hvs
  exact hh.elsewhere hsets hmaps

theorem storeIndex {object index : Value} (hh : h.Made)
    (hstore : h.storeIndex object index v = .ok h') : h'.Made := by
  cases object with
  | list a =>
    simp only [Heap.storeIndex, bind_eq_ok_iff] at hstore
    obtain ⟨i, -, j, -, hstore⟩ := hstore
    cases hstore
    exact hh.elsewhere rfl rfl
  | map a =>
    have hkey := hstore
    simp only [Heap.storeIndex, bind_eq_ok_iff] at hkey
    obtain ⟨k, hk, -⟩ := hkey
    exact hh.perform (.storeIndex hk hstore)
  | _ => cases hstore

theorem buildSet (hh : h.Made) (source : Value) : LeavesHeap Made (h.buildSet source) := by
  intro r h' hr
  cases hvs : h.elements source with
  | error fault =>
    cases source with
    | null => exact hh.perform (.emptySet hr)
    | _ =>
      simp only [Heap.buildSet, hvs, error_bind] at hr
      cases hr
  | ok p =>
    obtain ⟨vs, h₁⟩ := p
    have hinsert : ∃ members, h₁.insertAll ∅ vs = .ok members := by
      cases source with
      | null => cases hvs
      | _ =>
        simp only [Heap.buildSet, hvs, ok_bind, bind_eq_ok_iff] at hr
        obtain ⟨members, hmembers, -⟩ := hr
        exact ⟨members, hmembers⟩
    obtain ⟨members, hmembers⟩ := hinsert
    obtain ⟨ks, hks, -⟩ := insertAll_eq_ok_iff.1 hmembers
    exact hh.perform (.buildSet hvs hks hr)

theorem buildMap (hh : h.Made) (source : Value) : LeavesHeap Made (h.buildMap source) := by
  intro r h' hr
  cases hpairs : h.elements source with
  | error fault =>
    cases source with
    | null => exact hh.perform (.emptyMap hr)
    | _ =>
      simp only [Heap.buildMap, hpairs, error_bind] at hr
      cases hr
  | ok p =>
    obtain ⟨pairs, h₁⟩ := p
    have hbind : ∃ entries, h₁.bindAll ∅ pairs = .ok entries := by
      cases source with
      | null => cases hpairs
      | _ =>
        simp only [Heap.buildMap, hpairs, ok_bind, bind_eq_ok_iff] at hr
        obtain ⟨entries, hentries, -⟩ := hr
        exact ⟨entries, hentries⟩
    obtain ⟨entries, hentries⟩ := hbind
    obtain ⟨es, hes, -⟩ := bindAll_eq_ok_iff.1 hentries
    exact hh.perform (.buildMap hpairs hes hr)

theorem binary (hh : h.Made) (op : BinaryOp) (x y : Value) :
    LeavesHeap Made (h.binary op x y) := by
  have hadd : LeavesHeap Made (h.add x y) := by
    unfold add
    split
    · exact .bind fun _ _ => .pure hh
    · exact .ok hh
    · exact .ok hh
    · exact .ok (hh.elsewhere rfl rfl)
    · exact .error _
  cases op with
  | add => exact hadd
  | _ => exact .bind fun _ _ => .pure hh

theorem extremeOf (hh : h.Made) (function : Builtin) (better : Ordering → Bool)
    (args : List Value) : LeavesHeap Made (h.extremeOf function better args) := by
  have hfrom {h₁ : Heap} (hh₁ : h₁.Made) (v : Value) (vs : List Value) :
      LeavesHeap Made (do return (← extreme better v vs, h₁)) :=
    .bind fun _ _ => .pure hh₁
  unfold Heap.extremeOf
  refine .bind fun _ _ => ?_
  split
  · refine .bind fun r hr => ?_
    obtain ⟨values, h₁⟩ := r
    cases values with
    | nil => exact .throw _
    | cons v vs => exact hfrom (hh.elements _ _ _ hr) v vs
  · refine .bind fun r hr => ?_
    cases hr
    cases args with
    | nil => exact .throw _
    | cons v vs => exact hfrom hh v vs

theorem builtin (hh : h.Made) (function : Builtin) (args : List Value) :
    LeavesHeap Made (h.builtin function args) := by
  have hrange (start stop step : Int64) : LeavesHeap Made (h.range start stop step) :=
    .ite (.error _) (.ite (.error _) (.bind fun _ _ => .pure (hh.elsewhere rfl rfl)))
  unfold Heap.builtin
  split
  · exact .bind fun _ _ => .pure hh
  · exact .error _
  · exact .ok hh
  · exact .error _
  · refine .bind fun _ _ => .bind fun ns _ => ?_
    split
    · exact hrange _ _ _
    · exact hrange _ _ _
    · exact hrange _ _ _
    · exact .pure hh
  · exact .bind fun _ _ => .bind fun _ _ => .pure hh
  · exact .error _
  · exact hh.extremeOf _ _ _
  · exact hh.extremeOf _ _ _
  · exact .ok hh

theorem listMethod (hh : h.Made) (a : Nat) (m : Method) (args : List Value) :
    LeavesHeap Made (h.listMethod a m args) := by
  have hmodify (f : Array Value → Array Value) : (h.modifyList a f).Made := hh.elsewhere rfl rfl
  unfold Heap.listMethod
  split
  · exact .ok (hmodify _)
  · split
    · exact .ok (hmodify _)
    · exact .error _
  · split
    · exact .ok (hmodify _)
    · exact .error _
  · exact .ok (hmodify _)
  · exact .bind fun _ _ => .pure hh
  · refine .bind fun _ _ => ?_
    split
    · exact .pure hh
    · exact .pure hh
  · refine .bind fun _ _ => ?_
    split
    · exact .pure (hmodify _)
    · exact .throw _
  · refine .bind fun _ _ => ?_
    split
    · exact .pure (hmodify _)
    · exact .pure hh
  · exact .ok (hh.elsewhere rfl rfl)
  · exact .error _

theorem callMethod (hh : h.Made) (receiver : Value) (m : Method) (args : List Value) :
    LeavesHeap Made (h.callMethod receiver m args) := by
  intro r h' hr
  have hmethod := hr
  unfold Heap.callMethod at hmethod
  split at hmethod
  · cases hmethod
  obtain ⟨-, -, hmethod⟩ := bind_eq_ok_iff.1 hmethod
  cases receiver with
  | list a => exact hh.listMethod a m args r h' hmethod
  | set a =>
    dsimp only at hmethod
    unfold setMethod at hmethod
    split at hmethod
    · obtain ⟨k, hk, -⟩ := bind_eq_ok_iff.1 hmethod
      exact hh.perform (.add hk hr)
    · obtain ⟨k, -, hmethod⟩ := bind_eq_ok_iff.1 hmethod
      cases hmethod
      exact hh
    · obtain ⟨k, hk, -⟩ := bind_eq_ok_iff.1 hmethod
      exact hh.perform (.removeMember hk hr)
    · obtain ⟨k, hk, -⟩ := bind_eq_ok_iff.1 hmethod
      exact hh.perform (.discardMember hk hr)
    · exact hh.perform (.copySet hr)
    · cases hmethod
  | map a =>
    dsimp only at hmethod
    unfold mapMethod at hmethod
    split at hmethod
    · obtain ⟨v, -, hmethod⟩ := bind_eq_ok_iff.1 hmethod
      cases hmethod
      exact hh
    · obtain ⟨v, -, hmethod⟩ := bind_eq_ok_iff.1 hmethod
      cases hmethod
      exact hh
    · obtain ⟨k, hk, -⟩ := bind_eq_ok_iff.1 hmethod
      exact hh.perform (.put hk hr)
    · obtain ⟨k, -, hmethod⟩ := bind_eq_ok_iff.1 hmethod
      cases hmethod
      exact hh
    · obtain ⟨k, hk, -⟩ := bind_eq_ok_iff.1 hmethod
      exact hh.perform (.removeKey hk hr)
    · obtain ⟨k, hk, -⟩ := bind_eq_ok_iff.1 hmethod
      exact hh.perform (.discardKey hk hr)
    · cases hmethod
      obtain ⟨hsets, hmaps⟩ := collections_ofKeys (h.map a).keys #[] h
      exact hh.elsewhere hsets hmaps
    · cases hmethod
      exact hh.elsewhere rfl rfl
    · exact hh.perform (.copyMap hr)
    · cases hmethod
  | str s =>
    obtain ⟨v, -, hmethod⟩ := bind_eq_ok_iff.1 hmethod
    cases hmethod
    exact hh
  | _ => cases hmethod

/-- All that a program does to its sets and maps is done by these operations. -/
theorem invariant : Heap.Invariant Made where
  allocList _ hh := hh.elsewhere rfl rfl
  allocPosition w hh := hh.perform (.position w)
  elements v hh := hh.elements v
  storeIndex hh hstore := hh.storeIndex hstore
  buildSet source hh := hh.buildSet source
  buildMap source hh := hh.buildMap source
  binary op x y hh := hh.binary op x y
  builtin function args hh := hh.builtin function args
  callMethod receiver m args hh := hh.callMethod receiver m args

/-- The heap at every moment of a run, of any code, has come about in this way. -/
theorem of_steps {code : Code} {maxCalls n : Nat} {g g' : Stage} {st : State}
    (hsteps : Steps code maxCalls n .init g st g') : st.heap.Made := invariant.steps hsteps empty

end Made

end Heap

end Labyrinth
