import Labyrinth.Proofs.Machine.Equality
import Labyrinth.Proofs.Machine.Heaps

/-!
# Keys of values

A key is a picture of a value: two values that have keys are equal exactly if the keys are, and the
value that is made of a key has that key again. Both the comparison of values and the making of a
key stop at the same depth, so neither of them sees what the other one does not.

## Main results

* `Heap.equalsWithin_of_key`: values that have keys are compared by them.
* `Heap.keyWithin_ofKey`: a key that is not nested too deeply survives the way to a value and back.
* `Heap.insertAll_eq_ok_iff`, `Heap.bindAll_eq_ok_iff`: what a set or a map is built of.
-/

namespace Labyrinth

/-- A computation over a list succeeds exactly if it does for every item. -/
theorem mapM_eq_ok_iff {ε α β : Type} {f : α → Except ε β} {xs : List α} {ys : List β} :
    xs.mapM f = .ok ys ↔ List.Forall₂ (fun x y => f x = .ok y) xs ys := by
  induction xs generalizing ys with
  | nil =>
    rw [List.forall₂_nil_left_iff]
    exact ⟨fun h => (Except.ok.inj h).symm, fun h => h ▸ rfl⟩
  | cons x xs ih =>
    rw [List.mapM_cons, bind_eq_ok_iff, List.forall₂_cons_left_iff]
    constructor
    · rintro ⟨y, hy, h⟩
      obtain ⟨rest, hrest, h⟩ := bind_eq_ok_iff.1 h
      exact ⟨y, rest, hy, ih.1 hrest, (Except.ok.inj h).symm⟩
    · rintro ⟨y, rest, hy, hrest, rfl⟩
      exact ⟨y, hy, bind_eq_ok_iff.2 ⟨rest, ih.2 hrest, rfl⟩⟩

/-- What is related to an item of the second of two lists. -/
theorem exists_of_mem_right {α β : Type} {R : α → β → Prop} {xs : List α} {ys : List β}
    (h : List.Forall₂ R xs ys) {y : β} (hy : y ∈ ys) : ∃ x ∈ xs, R x y := by
  induction h with
  | nil => cases hy
  | @cons x z xs ys hxz _ ih =>
    rcases List.mem_cons.1 hy with rfl | hy
    · exact ⟨x, List.mem_cons_self, hxz⟩
    · obtain ⟨x, hx, hxy⟩ := ih hy
      exact ⟨x, List.mem_cons_of_mem _ hx, hxy⟩

/-- The lists in a key are nested in fewer levels than are given. -/
def Key.Within : (levels : Nat) → Key → Prop
  | 0, _ => False
  | levels + 1, .list items => ∀ k ∈ items, k.Within levels
  | _ + 1, _ => True

namespace Heap

variable {h h' h₁ : Heap} {levels : Nat} {x y : Value} {k l : Key}

/-! ### The key of a value -/

theorem keyWithin_list_iff {a : Nat} :
    h.keyWithin (levels + 1) (.list a) = .ok k ↔
      ∃ items, k = .list items ∧
        List.Forall₂ (fun v k => h.keyWithin levels v = .ok k) (h.list a).toList items := by
  simp only [keyWithin, bind_eq_ok_iff, mapM_eq_ok_iff, pure, Except.pure, Except.ok.injEq]
  exact exists_congr fun items => and_comm.trans (and_congr_left' eq_comm)

theorem within_of_keyWithin (hx : h.keyWithin levels x = .ok k) : k.Within levels := by
  induction levels generalizing x k with
  | zero => cases hx
  | succ levels ih =>
    cases x with
    | list a =>
      obtain ⟨items, rfl, hitems⟩ := keyWithin_list_iff.1 hx
      intro k hk
      obtain ⟨v, -, hv⟩ := exists_of_mem_right hitems hk
      exact ih hv
    | set a => cases hx
    | map a => cases hx
    | _ =>
      cases hx
      trivial

/-- Keys are made of lists only. -/
theorem keyWithin_congr (hlists : h'.lists = h.lists) (levels : Nat) (v : Value) :
    h'.keyWithin levels v = h.keyWithin levels v := by
  have hlist (a : Nat) : h'.list a = h.list a := by rw [list, list, hlists]
  induction levels generalizing v with
  | zero => rfl
  | succ levels ih =>
    have hih : h'.keyWithin levels = h.keyWithin levels := funext ih
    simp only [keyWithin, hlist, hih]

theorem key_congr (hlists : h'.lists = h.lists) (v : Value) : h'.key v = h.key v :=
  keyWithin_congr hlists _ v

/-- Lists whose items are compared by their keys are compared by these. -/
theorem allAgree_of_keys {eq : Value → Value → Except Fault Bool} {key : Value → Except Fault Key}
    (heq : ∀ {x y k l}, key x = .ok k → key y = .ok l → eq x y = .ok (k == l))
    {xs ys : List Value} {ks ls : List Key}
    (hxs : List.Forall₂ (fun x k => key x = .ok k) xs ks)
    (hys : List.Forall₂ (fun y l => key y = .ok l) ys ls) (hlength : ks.length = ls.length) :
    allAgree eq xs ys = .ok (ks == ls) := by
  induction hxs generalizing ys ls with
  | nil =>
    rw [List.eq_nil_of_length_eq_zero hlength.symm] at hys ⊢
    cases hys
    rfl
  | @cons x k xs ks hx _ ih =>
    cases hys with
    | nil => cases hlength
    | @cons y l ys ls hy hys =>
      rw [allAgree, heq hx hy, ok_bind, List.cons_beq_cons]
      cases k == l with
      | false => rfl
      | true => exact ih hys (Nat.succ.inj hlength)

/-- Lists whose keys are not the same one have different addresses. -/
theorem keys_eq_of_address_eq {a b : Nat} {ks ls : List Key} (hab : a = b)
    (hks : List.Forall₂ (fun v k => h.keyWithin levels v = .ok k) (h.list a).toList ks)
    (hls : List.Forall₂ (fun v k => h.keyWithin levels v = .ok k) (h.list b).toList ls) :
    ks = ls := by
  subst hab
  rw [← mapM_eq_ok_iff] at hks hls
  exact Except.ok.inj (hks.symm.trans hls)

/-- Values that have keys are equal exactly if the keys are. -/
theorem equalsWithin_of_key (hx : h.keyWithin levels x = .ok k)
    (hy : h.keyWithin levels y = .ok l) :
    h.equalsWithin levels x y = .ok (k == l) := by
  induction levels generalizing x y k l with
  | zero => cases hx
  | succ levels ih =>
    cases x with
    | list a =>
      obtain ⟨ks, rfl, hks⟩ := keyWithin_list_iff.1 hx
      cases y with
      | list b =>
        obtain ⟨ls, rfl, hls⟩ := keyWithin_list_iff.1 hy
        have hbeq : (Key.list ks == Key.list ls) = (ks == ls) := by
          rw [Bool.eq_iff_iff, beq_iff_eq, beq_iff_eq, Key.list.injEq]
        rw [equalsWithin_list, sameOrAgree, hbeq]
        split
        · next hab =>
          rw [keys_eq_of_address_eq hab hks hls, beq_self_eq_true]
          rfl
        · rw [hks.length_eq, hls.length_eq]
          split
          · next hlength =>
            have hne : ks ≠ ls := fun heq => hlength (congrArg List.length heq)
            rw [beq_eq_false_iff_ne.2 hne]
            rfl
          · next hlength => exact allAgree_of_keys ih hks hls (not_not.1 hlength)
      | set b => cases hy
      | map b => cases hy
      | _ =>
        cases hy
        rfl
    | set a => cases hx
    | map a => cases hx
    | _ =>
      cases hx
      cases y with
      | list b =>
        obtain ⟨ls, rfl, -⟩ := keyWithin_list_iff.1 hy
        rfl
      | set b => cases hy
      | map b => cases hy
      | _ =>
        cases hy
        refine congrArg Except.ok ?_
        rw [Bool.eq_iff_iff]
        simp

/-! ### The value of a key -/

mutual

theorem keeps_ofKey : (k : Key) → (h : Heap) → h.Keeps [] (ofKey k h).2
  | .null, h => .refl _ h
  | .bool _, h => .refl _ h
  | .int _, h => .refl _ h
  | .str _, h => .refl _ h
  | .list items, h => (keeps_ofKeys items #[] h).trans (keeps_allocList _ _ _)

theorem keeps_ofKeys : (ks : List Key) → (values : Array Value) → (h : Heap) →
    h.Keeps [] (ofKeys ks values h).2
  | [], _, h => .refl _ h
  | k :: ks, _, h => (keeps_ofKey k h).trans (keeps_ofKeys ks _ _)

end

mutual

/-- The value of a key is made of lists. -/
theorem collections_ofKey : (k : Key) → (h : Heap) →
    (ofKey k h).2.sets = h.sets ∧ (ofKey k h).2.maps = h.maps
  | .null, _ => ⟨rfl, rfl⟩
  | .bool _, _ => ⟨rfl, rfl⟩
  | .int _, _ => ⟨rfl, rfl⟩
  | .str _, _ => ⟨rfl, rfl⟩
  | .list items, h => collections_ofKeys items #[] h

theorem collections_ofKeys : (ks : List Key) → (values : Array Value) → (h : Heap) →
    (ofKeys ks values h).2.sets = h.sets ∧ (ofKeys ks values h).2.maps = h.maps
  | [], _, _ => ⟨rfl, rfl⟩
  | k :: ks, _, h => by
    obtain ⟨hsets, hmaps⟩ := collections_ofKeys ks _ (ofKey k h).2
    obtain ⟨hsets', hmaps'⟩ := collections_ofKey k h
    exact ⟨hsets.trans hsets', hmaps.trans hmaps'⟩

end

mutual

/-- A key that is not nested too deeply survives the way to a value and back, also if other lists
are changed or made. -/
theorem keyWithin_ofKey : (k : Key) → (levels : Nat) → (h h' : Heap) → k.Within levels →
    (ofKey k h).2.Keeps [] h' → h'.keyWithin levels (ofKey k h).1 = .ok k
  | k, 0, _, _, hk, _ => hk.elim
  | .null, _ + 1, _, _, _, _ => rfl
  | .bool _, _ + 1, _, _, _, _ => rfl
  | .int _, _ + 1, _, _, _, _ => rfl
  | .str _, _ + 1, _, _, _, _ => rfl
  | .list items, levels + 1, h, h', hk, hkeeps => by
    have hvalues := keys_ofKeys items levels #[] h h' hk
      ((keeps_allocList [] _ (ofKeys items #[] h).1).trans hkeeps)
    have hlist : h'.list (ofKeys items #[] h).2.lists.size = (ofKeys items #[] h).1 := by
      rw [hkeeps.list_eq _ (by simp [ofKey, size_allocList]) List.not_mem_nil]
      exact list_allocList_size _ _
    refine keyWithin_list_iff.2 ⟨items, rfl, ?_⟩
    rw [hlist]
    obtain ⟨ws, hws, hkeys⟩ := hvalues
    rw [hws]
    exact hkeys

/-- The same of several keys. -/
theorem keys_ofKeys : (ks : List Key) → (levels : Nat) → (values : Array Value) → (h h' : Heap) →
    (∀ k ∈ ks, k.Within levels) → (ofKeys ks values h).2.Keeps [] h' →
    ∃ ws, (ofKeys ks values h).1.toList = values.toList ++ ws ∧
      List.Forall₂ (fun v k => h'.keyWithin levels v = .ok k) ws ks
  | [], _, _, _, _, _, _ => ⟨[], (List.append_nil _).symm, .nil⟩
  | k :: ks, levels, values, h, h', hks, hkeeps => by
    have hk := keyWithin_ofKey k levels h h' (hks k List.mem_cons_self)
      ((keeps_ofKeys ks _ _).trans hkeeps)
    obtain ⟨ws, hws, hkeys⟩ := keys_ofKeys ks levels (values.push (ofKey k h).1) (ofKey k h).2 h'
      (fun k hk => hks k (List.mem_cons_of_mem _ hk)) hkeeps
    exact ⟨(ofKey k h).1 :: ws, by simpa [ofKeys] using hws, .cons hk hkeys⟩

end

/-! ### Sets and maps that are built -/

/-- A set is built of the keys of some values, all of which must have one. -/
theorem insertAll_eq_ok_iff {members members' : KeySet} {vs : List Value} :
    h.insertAll members vs = .ok members' ↔
      ∃ ks, List.Forall₂ (fun v k => h.key v = .ok k) vs ks ∧ members' = members.insertMany ks := by
  induction vs generalizing members with
  | nil =>
    simp only [insertAll, List.forall₂_nil_left_iff, exists_eq_left, Std.TreeSet.insertMany_nil,
      Except.ok.injEq, eq_comm]
  | cons v vs ih =>
    rw [insertAll, bind_eq_ok_iff]
    constructor
    · rintro ⟨k, hk, h⟩
      obtain ⟨ks, hks, rfl⟩ := ih.1 h
      exact ⟨k :: ks, .cons hk hks, Std.TreeSet.insertMany_cons.symm⟩
    · rintro ⟨ks, hks, rfl⟩
      cases hks with
      | cons hk hks => exact ⟨_, hk, ih.2 ⟨_, hks, Std.TreeSet.insertMany_cons⟩⟩

/-- A value is a list of two values, of which the first one has the key and the second one is the
value of an entry. -/
def IsEntry (h : Heap) (pair : Value) (e : Key × Value) : Prop :=
  ∃ a k, pair = .list a ∧ (h.list a).toList = [k, e.2] ∧ h.key k = .ok e.1

/-- A map is built of pairs, the first of each of which must have a key. -/
theorem bindAll_eq_ok_iff {entries entries' : KeyMap} {pairs : List Value} :
    h.bindAll entries pairs = .ok entries' ↔
      ∃ es, List.Forall₂ h.IsEntry pairs es ∧ entries' = entries.insertMany es := by
  induction pairs generalizing entries with
  | nil =>
    simp only [bindAll, List.forall₂_nil_left_iff, exists_eq_left, Std.TreeMap.insertMany_nil,
      Except.ok.injEq, eq_comm]
  | cons pair pairs ih =>
    constructor
    · intro h
      cases pair with
      | list a =>
        simp only [bindAll] at h
        split at h
        · next kv v hpair =>
          obtain ⟨k, hk, h⟩ := bind_eq_ok_iff.1 h
          obtain ⟨es, hes, rfl⟩ := ih.1 h
          exact ⟨(k, v) :: es, .cons ⟨a, kv, rfl, hpair, hk⟩ hes,
            Std.TreeMap.insertMany_cons.symm⟩
        · cases h
      | _ => cases h
    · rintro ⟨es, hes, rfl⟩
      cases hes with
      | cons he hes =>
        obtain ⟨a, kv, rfl, hpair, hk⟩ := he
        simp only [bindAll, hpair, hk, ok_bind]
        exact ih.2 ⟨_, hes, Std.TreeMap.insertMany_cons⟩

theorem buildSet_of_keys {source : Value} {vs : List Value} {ks : List Key}
    (hvs : h.elements source = .ok (vs, h₁))
    (hks : List.Forall₂ (fun v k => h₁.key v = .ok k) vs ks) :
    h.buildSet source = .ok (h₁.allocSet ((∅ : KeySet).insertMany ks)) := by
  have hinsert : h₁.insertAll ∅ vs = .ok ((∅ : KeySet).insertMany ks) :=
    insertAll_eq_ok_iff.2 ⟨ks, hks, rfl⟩
  cases source with
  | null => cases hvs
  | _ =>
    simp only [buildSet, hvs, ok_bind, hinsert]
    rfl

theorem buildMap_of_entries {source : Value} {pairs : List Value} {es : List (Key × Value)}
    (hpairs : h.elements source = .ok (pairs, h₁)) (hes : List.Forall₂ h₁.IsEntry pairs es) :
    h.buildMap source = .ok (h₁.allocMap ((∅ : KeyMap).insertMany es)) := by
  have hbind : h₁.bindAll ∅ pairs = .ok ((∅ : KeyMap).insertMany es) :=
    bindAll_eq_ok_iff.2 ⟨es, hes, rfl⟩
  cases source with
  | null => cases hpairs
  | _ =>
    simp only [buildMap, hpairs, ok_bind, hbind]
    rfl

end Heap

end Labyrinth
