import Labyrinth.Proofs.Machine.Contents
import Labyrinth.Proofs.Machine.Runs

/-!
# Equality and hashing agree

It makes no difference whether a value is looked for among the elements of a list, among the members
of the set that is built of them, or among the keys of a map that is built with them. And what a set
or a map is iterated over can be found in it, because every key in a collection was once the key of
a value and is nested no deeper than such a key can be.

## Main results

* `Heap.has_agree`: membership in a list, in a set and among the keys of a map.
* `Heap.Hashed.of_steps`: how deeply the keys in collections are nested.
* `Code.keys_agree`: equality and hashing agree in every run.
-/

namespace Labyrinth

/-! ### Keys in contents -/

namespace Contents

/-- A key is in a set or a map. -/
def Has (c : Contents) (k : Key) : Prop := (∃ s ∈ c.sets, k ∈ s) ∨ ∃ b ∈ c.maps, k ∈ b.keys

/-- The keys that a change puts into collections. -/
def Edit.keys : Edit → List Key
  | makeSet members => members
  | makeMap entries => entries.map Prod.fst
  | insert _ k => [k]
  | bind _ k _ => [k]
  | _ => []

variable {c : Contents} {a : Nat} {k : Key}

theorem Has.of_set (hk : k ∈ c.set a) : c.Has k := by
  rw [set] at hk
  cases hs : c.sets[a]? with
  | none =>
    rw [hs] at hk
    exact (Finset.notMem_empty k hk).elim
  | some s =>
    rw [hs] at hk
    exact .inl ⟨s, List.mem_of_getElem? hs, hk⟩

theorem Has.of_map (hk : k ∈ (c.map a).keys) : c.Has k := by
  rw [map] at hk
  cases hb : c.maps[a]? with
  | none =>
    rw [hb] at hk
    exact (Finset.notMem_empty k hk).elim
  | some b =>
    rw [hb] at hk
    exact .inr ⟨b, List.mem_of_getElem? hb, hk⟩

theorem mem_modify {α : Type} {f : α → α} {x : α} {xs : List α} {a : Nat}
    (hx : x ∈ xs.modify a f) : x ∈ xs ∨ ∃ y ∈ xs, x = f y := by
  induction xs generalizing a with
  | nil => exact .inl (by rwa [List.modify_nil] at hx)
  | cons y ys ih =>
    cases a with
    | zero =>
      rcases List.mem_cons.1 hx with rfl | hx
      · exact .inr ⟨y, List.mem_cons_self, rfl⟩
      · exact .inl (List.mem_cons_of_mem _ hx)
    | succ a =>
      rcases List.mem_cons.1 hx with rfl | hx
      · exact .inl List.mem_cons_self
      · rcases ih hx with hx | ⟨z, hz, rfl⟩
        · exact .inl (List.mem_cons_of_mem _ hx)
        · exact .inr ⟨z, List.mem_cons_of_mem _ hz, rfl⟩

theorem mem_keys_bindAll {b : KeyBindings} {es : List (Key × Value)}
    (hk : k ∈ (bindAll b es).keys) : k ∈ b.keys ∨ k ∈ es.map Prod.fst := by
  induction es generalizing b with
  | nil => exact .inl hk
  | cons e es ih =>
    rcases ih hk with hk | hk
    · rcases Finmap.mem_insert.1 (Finmap.mem_keys.1 hk) with rfl | hk
      · exact .inr List.mem_cons_self
      · exact .inl (Finmap.mem_keys.2 hk)
    · exact .inr (List.mem_cons_of_mem _ hk)

/-- A change puts no other keys into collections. -/
theorem Has.of_edit {e : Edit} (hk : (c.edit e).Has k) : c.Has k ∨ k ∈ e.keys := by
  cases e with
  | makeSet members =>
    rcases hk with ⟨s, hs, hk⟩ | hk
    · rcases List.mem_append.1 hs with hs | hs
      · exact .inl (.inl ⟨s, hs, hk⟩)
      · rw [List.mem_singleton.1 hs] at hk
        exact .inr (List.mem_toFinset.1 hk)
    · exact .inl (.inr hk)
  | makeMap entries =>
    rcases hk with hk | ⟨b, hb, hk⟩
    · exact .inl (.inl hk)
    · rcases List.mem_append.1 hb with hb | hb
      · exact .inl (.inr ⟨b, hb, hk⟩)
      · rw [List.mem_singleton.1 hb] at hk
        exact .inr ((mem_keys_bindAll hk).resolve_left (Finset.notMem_empty k))
  | copySet a =>
    rcases hk with ⟨s, hs, hk⟩ | hk
    · rcases List.mem_append.1 hs with hs | hs
      · exact .inl (.inl ⟨s, hs, hk⟩)
      · rw [List.mem_singleton.1 hs] at hk
        exact .inl (.of_set hk)
    · exact .inl (.inr hk)
  | copyMap a =>
    rcases hk with hk | ⟨b, hb, hk⟩
    · exact .inl (.inl hk)
    · rcases List.mem_append.1 hb with hb | hb
      · exact .inl (.inr ⟨b, hb, hk⟩)
      · rw [List.mem_singleton.1 hb] at hk
        exact .inl (.of_map hk)
  | insert a l =>
    rcases hk with ⟨s, hs, hk⟩ | hk
    · rcases mem_modify hs with hs | ⟨t, ht, rfl⟩
      · exact .inl (.inl ⟨s, hs, hk⟩)
      · rcases Finset.mem_insert.1 hk with rfl | hk
        · exact .inr List.mem_cons_self
        · exact .inl (.inl ⟨t, ht, hk⟩)
    · exact .inl (.inr hk)
  | erase a l =>
    rcases hk with ⟨s, hs, hk⟩ | hk
    · rcases mem_modify hs with hs | ⟨t, ht, rfl⟩
      · exact .inl (.inl ⟨s, hs, hk⟩)
      · exact .inl (.inl ⟨t, ht, Finset.mem_of_mem_erase hk⟩)
    · exact .inl (.inr hk)
  | bind a l v =>
    rcases hk with hk | ⟨b, hb, hk⟩
    · exact .inl (.inl hk)
    · rcases mem_modify hb with hb | ⟨d, hd, rfl⟩
      · exact .inl (.inr ⟨b, hb, hk⟩)
      · rcases Finmap.mem_insert.1 (Finmap.mem_keys.1 hk) with rfl | hk
        · exact .inr List.mem_cons_self
        · exact .inl (.inr ⟨d, hd, Finmap.mem_keys.2 hk⟩)
  | unbind a l =>
    rcases hk with hk | ⟨b, hb, hk⟩
    · exact .inl (.inl hk)
    · rcases mem_modify hb with hb | ⟨d, hd, rfl⟩
      · exact .inl (.inr ⟨b, hb, hk⟩)
      · exact .inl (.inr ⟨d, hd, Finmap.mem_keys.2 (Finmap.mem_erase.1 (Finmap.mem_keys.1 hk)).2⟩)

end Contents

namespace Heap

variable {h h' : Heap} {a p : Nat} {x v : Value} {k : Key}

/-! ### Membership -/

theorem indexOf?_of_key {items : List Value} {ks : List Key}
    (hitems : List.Forall₂ (fun v k => h.key v = .ok k) items ks) (hx : h.key x = .ok k) :
    ∃ r, h.indexOf? x items = .ok r ∧ r.isSome = ks.contains k := by
  have hgo : ∀ i, ∃ r, indexOf?.go h x i items = .ok r ∧ r.isSome = ks.contains k := by
    induction hitems with
    | nil => exact fun i => ⟨none, rfl, rfl⟩
    | @cons v l vs ls hv _ ih =>
      intro i
      have heq : h.equals v x = .ok (l == k) := equalsWithin_of_key hv hx
      rw [indexOf?.go, heq, ok_bind, List.contains_cons, Bool.beq_comm]
      cases k == l with
      | true => exact ⟨some i, rfl, rfl⟩
      | false => exact ih (i + 1)
  exact hgo 0

theorem callMethod_list_has {r : Option Nat} (hx : h.indexOf? x (h.list a).toList = .ok r) :
    h.callMethod (.list a) .has [x] = .ok (.bool r.isSome, h) := by
  have hhas : h.listMethod a .has [x] = .ok (.bool r.isSome, h) := by
    rw [listMethod, hx]
    rfl
  exact hhas

/-- What is a member of a new set. -/
theorem has_allocSet (hx : h.key x = .ok k) (members : KeySet) :
    (h.allocSet members).2.callMethod (h.allocSet members).1 .has [x] =
      .ok (.bool (members.contains k), (h.allocSet members).2) := by
  have hkey := (key_congr (lists_allocSet h members) x).trans hx
  have hhas := callMethod_set_has (a := h.sets.size) hkey
  rwa [set_allocSet_eq, if_pos rfl] at hhas

/-- What is a key of a new map. -/
theorem has_allocMap (hx : h.key x = .ok k) (entries : KeyMap) :
    (h.allocMap entries).2.callMethod (h.allocMap entries).1 .has [x] =
      .ok (.bool (entries.contains k), (h.allocMap entries).2) := by
  have hkey := (key_congr (lists_allocMap h entries) x).trans hx
  have hhas := callMethod_has (m := h.maps.size) hkey
  rwa [map_allocMap_size] at hhas

theorem forall₂_of_forall_exists {α β : Type} {R : α → β → Prop} {xs : List α}
    (h : ∀ x ∈ xs, ∃ y, R x y) : ∃ ys, List.Forall₂ R xs ys := by
  induction xs with
  | nil => exact ⟨[], .nil⟩
  | cons x xs ih =>
    obtain ⟨y, hy⟩ := h x List.mem_cons_self
    obtain ⟨ys, hys⟩ := ih fun x hx => h x (List.mem_cons_of_mem _ hx)
    exact ⟨y :: ys, .cons hy hys⟩

/-- Pairs whose first values have keys are entries with these keys. -/
theorem exists_entries {pairs vs : List Value} {ks : List Key}
    (hpairs : List.Forall₂ (fun pair v => ∃ b w, pair = .list b ∧ h.list b = #[v, w]) pairs vs)
    (hks : List.Forall₂ (fun v k => h.key v = .ok k) vs ks) :
    ∃ es, List.Forall₂ h.IsEntry pairs es ∧ es.map Prod.fst = ks := by
  induction hpairs generalizing ks with
  | nil =>
    cases hks
    exact ⟨[], .nil, rfl⟩
  | cons hpair _ ih =>
    cases hks with
    | @cons _ k _ ks hk hks =>
      obtain ⟨es, hes, rfl⟩ := ih hks
      obtain ⟨b, w, rfl, hb⟩ := hpair
      exact ⟨(k, w) :: es, .cons ⟨b, _, rfl, congrArg Array.toList hb, hk⟩ hes, rfl⟩

/-- A value is found among the elements of a list, in the set of them, and among the keys of a map
with them, or nowhere. -/
theorem has_agree (hlist : ∀ v ∈ h.list a, ∃ k, h.key v = .ok k) (hx : h.key x = .ok k)
    (hpairs : List.Forall₂ (fun pair v => ∃ b w, pair = .list b ∧ h.list b = #[v, w])
      (h.list p).toList (h.list a).toList) :
    ∃ found s hs m hm,
      h.callMethod (.list a) .has [x] = .ok (.bool found, h) ∧
      h.buildSet (.list a) = .ok (s, hs) ∧ hs.callMethod s .has [x] = .ok (.bool found, hs) ∧
      h.buildMap (.list p) = .ok (m, hm) ∧ hm.callMethod m .has [x] = .ok (.bool found, hm) := by
  obtain ⟨ks, hks⟩ : ∃ ks, List.Forall₂ (fun v k => h.key v = .ok k) (h.list a).toList ks :=
    forall₂_of_forall_exists fun v hv => hlist v (Array.mem_toList_iff.1 hv)
  obtain ⟨r, hr, hfound⟩ := indexOf?_of_key hks hx
  obtain ⟨es, hes, hfst⟩ := exists_entries hpairs hks
  have hasSet := has_allocSet hx ((∅ : KeySet).insertMany ks)
  have hasMap := has_allocMap hx ((∅ : KeyMap).insertMany es)
  rw [Std.TreeSet.contains_insertMany_list, Std.TreeSet.contains_emptyc, Bool.false_or] at hasSet
  rw [Std.TreeMap.contains_insertMany_list, Std.TreeMap.contains_emptyc, Bool.false_or, hfst]
    at hasMap
  exact ⟨ks.contains k, _, _, _, _, hfound ▸ callMethod_list_has hr,
    buildSet_of_keys rfl hks, hasSet, buildMap_of_entries rfl hes, hasMap⟩

/-! ### Keys in collections -/

/-- A key is in a set or a map. -/
def Holds (h : Heap) (k : Key) : Prop := ∃ a, k ∈ h.set a ∨ k ∈ h.map a

/-- All keys in collections are nested no deeper than the key of a value can be. -/
def Hashed (h : Heap) : Prop := ∀ k, h.Holds k → k.Within (maxDepth + 1)

theorem holds_iff : h.Holds k ↔ h.contents.Has k := by
  constructor
  · rintro ⟨a, hk | hk⟩
    · rw [← mem_keysOf, ← contents_set] at hk
      exact .of_set hk
    · rw [← mem_keys_bindingsOf, ← contents_map] at hk
      exact .of_map hk
  · rintro (⟨s, hs, hk⟩ | ⟨b, hb, hk⟩)
    · obtain ⟨a, ha⟩ := List.mem_iff_getElem?.1 hs
      refine ⟨a, .inl ?_⟩
      rw [← mem_keysOf, ← contents_set, Contents.set, ha]
      exact hk
    · obtain ⟨a, ha⟩ := List.mem_iff_getElem?.1 hb
      refine ⟨a, .inr ?_⟩
      rw [← mem_keys_bindingsOf, ← contents_map, Contents.map, ha]
      exact hk

/-- The keys that an operation puts into a collection are keys of values. -/
theorem Performs.within {e : Contents.Edit} (he : h.Performs e h') :
    ∀ k ∈ e.keys, k.Within (maxDepth + 1) := by
  cases he with
  | buildSet _ hks _ =>
    intro k hk
    obtain ⟨v, -, hv⟩ := exists_of_mem_right hks hk
    exact within_of_keyWithin hv
  | buildMap _ hes _ =>
    intro k hk
    obtain ⟨e, he, rfl⟩ := List.mem_map.1 hk
    obtain ⟨pair, -, a, u, -, -, hu⟩ := exists_of_mem_right hes he
    exact within_of_keyWithin hu
  | position w =>
    intro k hk
    have hcases : k = .str "x" ∨ k = .str "y" := by simpa [Contents.Edit.keys] using hk
    rcases hcases with rfl | rfl <;> trivial
  | add hk _ | put hk _ | storeIndex hk _ =>
    intro l hl
    rw [List.mem_singleton.1 hl]
    exact within_of_keyWithin hk
  | _ => exact fun _ hk => (List.not_mem_nil hk).elim

namespace Hashed

theorem empty : Heap.empty.Hashed := by
  rintro k ⟨a, hk | hk⟩
  · simp [set, Heap.empty] at hk
  · simp [map, Heap.empty] at hk

theorem perform {e : Contents.Edit} (hh : h.Hashed) (he : h.Performs e h') : h'.Hashed := by
  intro k hk
  rw [holds_iff, he.contents_eq] at hk
  rcases hk.of_edit with hk | hk
  · exact hh k (holds_iff.2 hk)
  · exact he.within k hk

/-- In every heap that has come about by operations of programs, the keys in collections are nested
no deeper than the key of a value can be. -/
theorem of_runs {es : List Contents.Edit} (hh : h.Hashed) (hes : h.Runs es h') : h'.Hashed := by
  induction hes with
  | refl => exact hh
  | perform _ he ih => exact ih.perform he
  | elsewhere _ hsets hmaps ih =>
    intro k hk
    rw [holds_iff, contents_congr hsets hmaps, ← holds_iff] at hk
    exact ih k hk

theorem of_steps {code : Code} {maxCalls n : Nat} {g g' : Stage} {st : State}
    (hsteps : Steps code maxCalls n .init g st g') : st.heap.Hashed := by
  obtain ⟨es, hes⟩ := Made.of_steps hsteps
  exact empty.of_runs hes

theorem set_within (hh : h.Hashed) (a : Nat) : ∀ k ∈ h.set a, k.Within (maxDepth + 1) :=
  fun k hk => hh k ⟨a, .inl hk⟩

theorem map_within (hh : h.Hashed) (a : Nat) : ∀ k ∈ h.map a, k.Within (maxDepth + 1) :=
  fun k hk => hh k ⟨a, .inr hk⟩

end Hashed

/-! ### Iteration -/

/-- The value of a key in a collection has that key. -/
theorem Hashed.key_ofKey (hh : h.Hashed) (hk : h.Holds k) :
    (ofKey k h).2.key (ofKey k h).1 = .ok k :=
  keyWithin_ofKey k _ h _ (hh k hk) (.refl _ _)

theorem keys_elements {ks : List Key} (hks : ∀ k ∈ ks, k.Within (maxDepth + 1)) (h : Heap) :
    List.Forall₂ (fun v k => (ofKeys ks #[] h).2.key v = .ok k) (ofKeys ks #[] h).1.toList ks := by
  obtain ⟨ws, hws, hkeys⟩ := keys_ofKeys ks _ #[] h _ hks (.refl _ _)
  rwa [hws]

/-- What a set is iterated over is a member of it. -/
theorem Hashed.has_elements_set (hh : h.Hashed) (a : Nat) :
    ∃ vs h', h.elements (.set a) = .ok (vs, h') ∧
      ∀ v ∈ vs, h'.callMethod (.set a) .has [v] = .ok (.bool true, h') := by
  refine ⟨_, _, rfl, fun v hv => ?_⟩
  have hkeys := keys_elements (fun k hk => hh.set_within a k (Std.TreeSet.mem_toList.1 hk)) h
  obtain ⟨k, hk, hv⟩ := exists_of_mem_right hkeys.flip hv
  have hset : (Heap.ofKeys (h.set a).toList #[] h).2.set a = h.set a := by
    rw [set, (collections_ofKeys _ _ _).1, set]
  rw [callMethod_set_has hv, hset, Std.TreeSet.contains_iff_mem.2 (Std.TreeSet.mem_toList.1 hk)]

/-- What a map is iterated over is a key of it. -/
theorem Hashed.has_elements_map (hh : h.Hashed) (a : Nat) :
    ∃ vs h', h.elements (.map a) = .ok (vs, h') ∧
      ∀ v ∈ vs, h'.callMethod (.map a) .has [v] = .ok (.bool true, h') := by
  refine ⟨_, _, rfl, fun v hv => ?_⟩
  have hkeys := keys_elements (fun k hk => hh.map_within a k (Std.TreeMap.mem_keys.1 hk)) h
  obtain ⟨k, hk, hv⟩ := exists_of_mem_right hkeys.flip hv
  have hmap := map_congr (collections_ofKeys (h.map a).keys #[] h).2 a
  rw [callMethod_has hv, hmap, Std.TreeMap.contains_iff_mem.2 (Std.TreeMap.mem_keys.1 hk)]

end Heap

/-- Equality and hashing agree. Values that have keys are equal exactly if the keys are, in every
heap; and they are found in a list, in the set of its elements and among the keys of a map with
them, or in none of these. In every state of a run, the value of a key in a collection has that key,
and what a set or a map is iterated over is found in it. -/
theorem Code.keys_agree :
    (∀ (h : Heap) (x y : Value) (k l : Key), h.key x = .ok k → h.key y = .ok l →
      ∃ b, h.equals x y = .ok b ∧ (b = true ↔ k = l)) ∧
    (∀ (h : Heap) (a p : Nat) (x : Value), (∀ v ∈ h.list a, ∃ k, h.key v = .ok k) →
      (∃ k, h.key x = .ok k) →
      List.Forall₂ (fun pair v => ∃ b w, pair = .list b ∧ h.list b = #[v, w]) (h.list p).toList
        (h.list a).toList →
      ∃ found s hs m hm,
        h.callMethod (.list a) .has [x] = .ok (.bool found, h) ∧
        h.buildSet (.list a) = .ok (s, hs) ∧ hs.callMethod s .has [x] = .ok (.bool found, hs) ∧
        h.buildMap (.list p) = .ok (m, hm) ∧ hm.callMethod m .has [x] = .ok (.bool found, hm)) ∧
    ∀ (code : Code) (maxCalls n : Nat) (w : World) (st : State) (g : Stage),
      Steps code maxCalls n .init ⟨w, []⟩ st g →
      (∀ k, st.heap.Holds k → (Heap.ofKey k st.heap).2.key (Heap.ofKey k st.heap).1 = .ok k) ∧
      ∀ object, (∃ a, object = .set a ∨ object = .map a) →
        ∃ vs h, st.heap.elements object = .ok (vs, h) ∧
          ∀ v ∈ vs, h.callMethod object .has [v] = .ok (.bool true, h) := by
  refine ⟨fun h x y k l hx hy => ⟨k == l, Heap.equalsWithin_of_key hx hy, beq_iff_eq⟩, ?_, ?_⟩
  · intro h a p x hlist hx hpairs
    obtain ⟨k, hx⟩ := hx
    exact Heap.has_agree hlist hx hpairs
  intro code maxCalls n w st g hsteps
  have hh : st.heap.Hashed := .of_steps hsteps
  refine ⟨fun k hk => hh.key_ofKey hk, ?_⟩
  rintro object ⟨a, rfl | rfl⟩
  · exact hh.has_elements_set a
  · exact hh.has_elements_map a

/-- Two values and two pairs of them. -/
def Heap.twoPairs : Heap :=
  ⟨#[#[.int 1, .list 4], #[.list 2, .list 3], #[.int 1, .null], #[.list 4, .list 0], #[.str "a"]],
    #[], #[]⟩

/-- A set of one number. -/
def Code.oneMember : Code := ⟨#[.push (.int 1), .buildList 1, .buildSet, .halt], #[]⟩

/-- The state in which `oneMember` comes to its end. -/
def State.oneMember : State :=
  ⟨3, #[.set 0], ⟨#[#[.int 1]], #[(∅ : KeySet).insert (.int 1)], #[]⟩, .empty, #[]⟩

theorem Code.keys_agree_oneMember :
    (∃ b, Heap.twoPairs.equals (.list 4) (.int 1) = .ok b ∧
      (b = true ↔ Key.list [.str "a"] = .int 1)) ∧
    (∃ found s hs m hm,
      Heap.twoPairs.callMethod (.list 0) .has [.list 4] = .ok (.bool found, Heap.twoPairs) ∧
      Heap.twoPairs.buildSet (.list 0) = .ok (s, hs) ∧
      hs.callMethod s .has [.list 4] = .ok (.bool found, hs) ∧
      Heap.twoPairs.buildMap (.list 1) = .ok (m, hm) ∧
      hm.callMethod m .has [.list 4] = .ok (.bool found, hm)) ∧
    Steps Code.oneMember 0 3 .init ⟨.corridor, []⟩ State.oneMember ⟨.corridor, []⟩ ∧
    State.oneMember.heap.Holds (.int 1) ∧
    (Heap.ofKey (.int 1) State.oneMember.heap).2.key (Heap.ofKey (.int 1) State.oneMember.heap).1 =
      .ok (.int 1) ∧
    ∃ vs h, State.oneMember.heap.elements (.set 0) = .ok (vs, h) ∧
      ∀ v ∈ vs, h.callMethod (.set 0) .has [v] = .ok (.bool true, h) := by
  have hsteps : Steps Code.oneMember 0 3 .init ⟨.corridor, []⟩ State.oneMember ⟨.corridor, []⟩ :=
    .step rfl nofun (.step rfl nofun (.step rfl nofun (.refl _ _)))
  have hholds : State.oneMember.heap.Holds (.int 1) :=
    ⟨0, .inl (Std.TreeSet.mem_insert_self)⟩
  have hrun := keys_agree.2.2 Code.oneMember 0 3 .corridor State.oneMember _ hsteps
  refine ⟨keys_agree.1 Heap.twoPairs (.list 4) (.int 1) _ _ rfl rfl,
    keys_agree.2.1 Heap.twoPairs 0 1 (.list 4) ?_ ⟨.list [.str "a"], rfl⟩ ?_,
    hsteps, hholds, hrun.1 _ hholds, hrun.2 _ ⟨0, .inl rfl⟩⟩
  · intro v hv
    have hvalues : v = .int 1 ∨ v = .list 4 := by simpa [Heap.twoPairs, Heap.list] using hv
    rcases hvalues with rfl | rfl
    · exact ⟨.int 1, rfl⟩
    · exact ⟨.list [.str "a"], rfl⟩
  · exact .cons ⟨2, .null, rfl, rfl⟩ (.cons ⟨3, .list 0, rfl, rfl⟩ .nil)

end Labyrinth
