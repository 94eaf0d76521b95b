import Labyrinth.Proofs.Machine.Contents
import Labyrinth.Proofs.Machine.Runs

/-!
# Sets and maps refine finite sets and finite maps

Whatever a program can ask about a set or a map is answered by its contents: whether a key is there,
what is bound to it, how many there are, and what is listed or written, which is always in
increasing order of the keys. So two collections with the same contents cannot be told apart, in
whatever order they have been filled.

## Main results

* `Heap.implements`: the answers of all operations.
* `Heap.accepts`: which operations succeed.
* `Heap.refines_contents`: what is known of all heaps that come about by operations of programs.
-/

namespace Labyrinth

namespace Heap

variable {h : Heap}

/-- What programs can see of the sets and maps of a heap is given by their contents. -/
structure Implements (h : Heap) (c : Contents) : Prop where
  has_set : ∀ {a : Nat} {v : Value} {k : Key}, h.key v = .ok k →
    h.callMethod (.set a) .has [v] = .ok (.bool (decide (k ∈ c.set a)), h)
  has_map : ∀ {a : Nat} {u : Value} {k : Key}, h.key u = .ok k →
    h.callMethod (.map a) .has [u] = .ok (.bool (decide (k ∈ (c.map a).keys)), h)
  get : ∀ {a : Nat} {u : Value} {k : Key}, h.key u = .ok k →
    h.callMethod (.map a) .get [u] = .ok (((c.map a).lookup k).getD .null, h)
  getOr : ∀ {a : Nat} {u w : Value} {k : Key}, h.key u = .ok k →
    h.callMethod (.map a) .get [u, w] = .ok (((c.map a).lookup k).getD w, h)
  loadIndex : ∀ {a : Nat} {u : Value} {k : Key}, h.key u = .ok k →
    h.loadIndex (.map a) u = ((c.map a).lookup k).elim (.error (h.missingKey u)) .ok
  loadAttribute : ∀ {a : Nat} {name : String},
    h.loadAttribute (.map a) name =
      ((c.map a).lookup (.str name)).elim (.error (h.missingKey (.str name))) .ok
  len_set : ∀ {a : Nat}, h.builtin .len [.set a] = .ok (.ofNat (c.set a).card, h)
  len_map : ∀ {a : Nat}, h.builtin .len [.map a] = .ok (.ofNat (c.map a).keys.card, h)
  /-- A set is iterated over in the order of its members. -/
  elements_set : ∀ {a : Nat}, h.elements (.set a) =
    .ok ((ofKeys (c.set a).sort #[] h).1.toList, (ofKeys (c.set a).sort #[] h).2)
  /-- A map is iterated over in the order of its keys. -/
  elements_map : ∀ {a : Nat}, h.elements (.map a) =
    .ok ((ofKeys (c.map a).keys.sort #[] h).1.toList, (ofKeys (c.map a).keys.sort #[] h).2)
  keys : ∀ {a : Nat}, h.callMethod (.map a) .keys [] =
    .ok ((ofKeys (c.map a).keys.sort #[] h).2.allocList (ofKeys (c.map a).keys.sort #[] h).1)
  /-- Values are listed in the order of their keys. -/
  values : ∀ {a : Nat}, h.callMethod (.map a) .values [] =
    .ok (h.allocList ((entriesOf (c.map a)).map Prod.snd).toArray)
  display_set : ∀ {a levels : Nat} {text : String},
    Display.value h (levels + 1) (.set a) text =
      Display.between "\x7b" "\x7d" (Display.key levels) (c.set a).sort text
  display_map : ∀ {a levels : Nat} {text : String},
    Display.value h (levels + 1) (.map a) text =
      Display.between "\x7b" "\x7d" (Display.entry (Display.key levels) (Display.value h levels))
        (entriesOf (c.map a)) text

theorem implements (h : Heap) : h.Implements h.contents where
  has_set {a _ k} hv := by
    have hcontains : (h.set a).contains k = decide (k ∈ h.contents.set a) := by
      rw [Bool.eq_iff_iff, decide_eq_true_iff, contents_set, mem_keysOf,
        Std.TreeSet.contains_iff_mem]
    rw [callMethod_set_has hv, hcontains]
  has_map {a _ k} hu := by
    have hcontains : (h.map a).contains k = decide (k ∈ (h.contents.map a).keys) := by
      rw [Bool.eq_iff_iff, decide_eq_true_iff, contents_map, mem_keys_bindingsOf,
        Std.TreeMap.contains_iff_mem]
    rw [callMethod_has hu, hcontains]
  get hu := callMethod_getOr hu _ .null
  getOr hu := callMethod_getOr hu _ _
  loadIndex {a u k} hu := by
    rw [contents_map, lookup_bindingsOf]
    simp only [loadIndex, hu, ok_bind]
    cases (h.map a)[k]? <;> rfl
  loadAttribute {a name} := by
    rw [contents_map, lookup_bindingsOf]
    simp only [loadAttribute]
    cases (h.map a)[Key.str name]? <;> rfl
  len_set {a} := by
    rw [contents_set, card_keysOf]
    rfl
  len_map {a} := by
    rw [contents_map, card_keys_bindingsOf]
    rfl
  elements_set {a} := by
    rw [contents_set, sort_keysOf]
    rfl
  elements_map {a} := by
    rw [contents_map, sort_keys_bindingsOf]
    rfl
  keys {a} := by
    rw [contents_map, sort_keys_bindingsOf]
    rfl
  values {a} := by
    rw [contents_map, entriesOf_bindingsOf, ← values_eq]
    rfl
  display_set {a _ _} := by
    rw [contents_set, sort_keysOf]
    rfl
  display_map {a _ _} := by
    rw [contents_map, entriesOf_bindingsOf]
    rfl

/-- With arguments that have keys, the operations on sets and maps succeed, but for the removal of
what is not there. A new collection has the next address. -/
structure Accepts (h : Heap) (c : Contents) : Prop where
  buildSet : ∀ {source : Value} {vs : List Value} {ks : List Key} {h₁ : Heap},
    h.elements source = .ok (vs, h₁) → List.Forall₂ (fun v k => h₁.key v = .ok k) vs ks →
    ∃ h', h.buildSet source = .ok (.set c.sets.length, h')
  emptySet : ∃ h', h.buildSet .null = .ok (.set c.sets.length, h')
  buildMap : ∀ {source : Value} {pairs : List Value} {es : List (Key × Value)} {h₁ : Heap},
    h.elements source = .ok (pairs, h₁) → List.Forall₂ h₁.IsEntry pairs es →
    ∃ h', h.buildMap source = .ok (.map c.maps.length, h')
  emptyMap : ∃ h', h.buildMap .null = .ok (.map c.maps.length, h')
  copySet : ∀ {a : Nat}, ∃ h', h.callMethod (.set a) .copy [] = .ok (.set c.sets.length, h')
  copyMap : ∀ {a : Nat}, ∃ h', h.callMethod (.map a) .copy [] = .ok (.map c.maps.length, h')
  add : ∀ {a : Nat} {v : Value} {k : Key}, h.key v = .ok k →
    ∃ h', h.callMethod (.set a) .add [v] = .ok (.null, h')
  discardMember : ∀ {a : Nat} {v : Value} {k : Key}, h.key v = .ok k →
    ∃ h', h.callMethod (.set a) .discard [v] = .ok (.null, h')
  removeMember : ∀ {a : Nat} {v : Value} {k : Key}, h.key v = .ok k → k ∈ c.set a →
    ∃ h', h.callMethod (.set a) .remove [v] = .ok (.null, h')
  notMember : ∀ {a : Nat} {v : Value} {k : Key}, h.key v = .ok k → k ∉ c.set a →
    h.callMethod (.set a) .remove [v] = .error .notMember
  put : ∀ {a : Nat} {u v : Value} {k : Key}, h.key u = .ok k →
    ∃ h', h.callMethod (.map a) .put [u, v] = .ok (.null, h')
  storeIndex : ∀ {a : Nat} {u v : Value} {k : Key}, h.key u = .ok k →
    ∃ h', h.storeIndex (.map a) u v = .ok h'
  discardKey : ∀ {a : Nat} {u : Value} {k : Key}, h.key u = .ok k →
    ∃ h', h.callMethod (.map a) .discard [u] = .ok (.null, h')
  removeKey : ∀ {a : Nat} {u : Value} {k : Key}, h.key u = .ok k → k ∈ (c.map a).keys →
    ∃ h', h.callMethod (.map a) .remove [u] = .ok (.null, h')
  notKey : ∀ {a : Nat} {u : Value} {k : Key}, h.key u = .ok k → k ∉ (c.map a).keys →
    h.callMethod (.map a) .remove [u] = .error (h.missingKey u)

theorem length_contents_sets (h : Heap) : h.contents.sets.length = h.sets.size := by
  rw [contents, List.length_map, Array.length_toList]

theorem length_contents_maps (h : Heap) : h.contents.maps.length = h.maps.size := by
  rw [contents, List.length_map, Array.length_toList]

theorem accepts (h : Heap) : h.Accepts h.contents where
  buildSet {_ _ _ h₁} hvs hks := by
    rw [length_contents_sets, ← (contents_elements hvs).1]
    exact ⟨_, buildSet_of_keys hvs hks⟩
  emptySet := by
    rw [length_contents_sets]
    exact ⟨_, rfl⟩
  buildMap {_ _ _ h₁} hpairs hes := by
    rw [length_contents_maps, ← (contents_elements hpairs).2]
    exact ⟨_, buildMap_of_entries hpairs hes⟩
  emptyMap := by
    rw [length_contents_maps]
    exact ⟨_, rfl⟩
  copySet := by
    rw [length_contents_sets]
    exact ⟨_, rfl⟩
  copyMap := by
    rw [length_contents_maps]
    exact ⟨_, rfl⟩
  add hv := ⟨_, callMethod_add hv _⟩
  discardMember hv := ⟨_, callMethod_discardMember hv _⟩
  removeMember hv hk := ⟨_, (callMethod_removeMember hv _).trans (if_pos hk)⟩
  notMember hv hk := (callMethod_removeMember hv _).trans (if_neg hk)
  put hu := ⟨_, callMethod_put hu _⟩
  storeIndex hu := ⟨_, storeIndex_map hu _⟩
  discardKey hu := ⟨_, callMethod_discardKey hu _⟩
  removeKey hu hk := ⟨_, (callMethod_removeKey hu _).trans (if_pos hk)⟩
  notKey hu hk := (callMethod_removeKey hu _).trans (if_neg hk)

/-- Keys are strictly and totally ordered, kind by kind and lists lexicographically. After every
sequence of operations, sets and maps answer as the finite sets and finite maps that result from it,
and what lists or writes them does so in increasing order of the keys. The heaps of programs come
about by such sequences. -/
theorem refines_contents :
    ((∀ k l : Key, (k.compare l = .lt ↔ k.Precedes l) ∧ (k.compare l = .eq ↔ k = l)) ∧
      (∀ k : Key, ¬k.Precedes k) ∧
      (∀ k l m : Key, k.Precedes l → l.Precedes m → k.Precedes m) ∧
      ∀ k l : Key, k.Precedes l ∨ k = l ∨ l.Precedes k) ∧
    (∀ (es : List Contents.Edit) (h : Heap), Heap.empty.Runs es h →
      h.Implements (Contents.empty.edits es) ∧ h.Accepts (Contents.empty.edits es)) ∧
    (∀ s : Finset Key, s.sort.Pairwise Key.Precedes) ∧
    (∀ b : KeyBindings, (entriesOf b).map Prod.fst = b.keys.sort ∧
      ∀ e, e ∈ entriesOf b ↔ b.lookup e.1 = some e.2) ∧
    ∀ (code : Code) (maxCalls n : Nat) (w : World) (st : State) (g : Stage),
      Steps code maxCalls n .init ⟨w, []⟩ st g → ∃ es, Heap.empty.Runs es st.heap := by
  refine ⟨⟨fun k l => ⟨Key.compare_eq_lt_iff, Key.compare_eq_iff⟩, Key.Precedes.irrefl,
    fun k l m => Key.Precedes.trans, Key.precedes_or_eq_or_precedes⟩, ?_, ?_, ?_, ?_⟩
  · intro es h hes
    have hcontents : h.contents = Contents.empty.edits es := hes.contents_eq
    rw [← hcontents]
    exact ⟨h.implements, h.accepts⟩
  · exact sort_precedes
  · exact fun b => ⟨map_fst_entriesOf b, mem_entriesOf b⟩
  · exact fun code maxCalls n w st g hsteps => Made.of_steps hsteps

/-- A set of two numbers. -/
def twoMembers : Heap := ⟨#[], #[((∅ : KeySet).insert (.int 2)).insert (.int 1)], #[]⟩

theorem refines_contents_twoMembers :
    Heap.empty.Runs ([] ++ [.makeSet []] ++ [.insert 0 (.int 2)] ++ [.insert 0 (.int 1)])
      twoMembers ∧
    twoMembers.Implements
      (Contents.empty.edits [.makeSet [], .insert 0 (.int 2), .insert 0 (.int 1)]) ∧
    ∃ es, Heap.empty.Runs es State.init.heap := by
  have hruns : Heap.empty.Runs
      ([] ++ [.makeSet []] ++ [.insert 0 (.int 2)] ++ [.insert 0 (.int 1)]) twoMembers :=
    (((Runs.refl _).perform (.emptySet rfl)).perform
      (.add (v := .int 2) rfl rfl)).perform (.add (v := .int 1) rfl rfl)
  exact ⟨hruns, (refines_contents.2.1 _ twoMembers hruns).1,
    refines_contents.2.2.2.2 ⟨#[], #[]⟩ 0 0 .corridor .init _ (.refl _ _)⟩

end Heap

end Labyrinth
