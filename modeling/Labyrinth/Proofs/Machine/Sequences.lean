import Labyrinth.Proofs.Machine.Execution
import Labyrinth.Proofs.Machine.Heaps
import Labyrinth.Proofs.Machine.Integers
import Labyrinth.Proofs.Occurrences

/-!
# Sequences

Lists and strings are the **sequences** of the language: the elements of a list, and the characters
of a string, have positions. Programs reach the elements in several ways, by the length, by loops
and by indices, and all of them agree on what the elements are and where they are.

An index counts from the front, or back from the end if it is negative. An index that names no
position is refused, whatever it is used for.

## Main results

* `slot_of_names`, `slot_of_not_names`: what an index names.
* `Heap.IsSequence.reads`: reading a sequence.
* `Heap.iterates`: loops over a sequence.
* `Heap.stores`: replacing an element of a list.
* `Heap.exists_searches`: searching in a string.
-/

namespace Labyrinth

open Labyrinth.Integer

/-! ### Indices -/

/-- An index **names** a position of a sequence with `n` elements, counting from the front or back
from the end. -/
def Names (i : Int64) (n k : ℕ) : Prop := k < n ∧ (i.toInt = k ∨ i.toInt = k - n)

section Indices

variable {i : Int64} {n k : ℕ}

theorem slot_eq_ok_iff_names {k : Fin n} : slot i n = .ok k ↔ Names i n k := by
  have hneg : i < 0 ↔ i.toInt < 0 := by rw [Int64.lt_iff_toInt_lt, Int64.toInt_zero]
  have hk := k.isLt
  rw [slot_eq_ok_iff, Names]
  split
  · next hi =>
    have hi := hneg.1 hi
    omega
  · next hi =>
    have hi := hneg.not.1 hi
    omega

theorem slot_of_names (h : Names i n k) : slot i n = .ok ⟨k, h.1⟩ := slot_eq_ok_iff_names.2 h

theorem slot_of_not_names (h : ∀ k, ¬Names i n k) : slot i n = .error (.indexOutOfRange i) := by
  have hnone (k : Fin n) : slot i n ≠ .ok k := fun hk => h k (slot_eq_ok_iff_names.1 hk)
  unfold slot at hnone ⊢
  split
  · next k hk => exact absurd (by rw [hk]) (hnone k)
  · rfl

end Indices

/-- An instruction **leads** from a state to another one, in every program and every world. -/
def Instr.Leads (instr : Instr) (st st' : State) : Prop :=
  ∀ code maxCalls w, instr.execute code maxCalls w st = .ok (.none, st')

namespace Heap

/-- The elements of a sequence: those of a list, or the characters of a string, each of which is a
string of its own. -/
inductive IsSequence (h : Heap) : Value → List Value → Prop
  | list (a : Nat) : h.IsSequence (.list a) (h.list a).toList
  | str (s : String) : h.IsSequence (.str s) (s.toList.map .ofChar)

variable {h : Heap} {s : Value} {es : List Value} {i : Int64} {k : ℕ}

/-! ### Reading -/

namespace IsSequence

theorem length_eq (hs : h.IsSequence s es) : h.builtin .len [s] = .ok (.ofNat es.length, h) := by
  cases hs with
  | list a => rfl
  | str t =>
    rw [List.length_map]
    rfl

theorem elements_eq (hs : h.IsSequence s es) : h.elements s = .ok (es, h) := by
  cases hs <;> rfl

theorem loadIndex_of_names (hs : h.IsSequence s es) (hi : Names i es.length k) :
    h.loadIndex s (.int i) = .ok (es.get ⟨k, hi.1⟩) := by
  cases hs with
  | list a =>
    have hslot : slot i (h.list a).size = .ok ⟨k, hi.1⟩ := slot_of_names hi
    rw [loadIndex, sequenceIndex, ok_bind, hslot]
    rfl
  | str t =>
    rw [List.length_map] at hi
    rw [loadIndex, sequenceIndex, ok_bind, slot_of_names hi, List.get_eq_getElem, List.getElem_map]
    rfl

theorem loadIndex_of_not_names (hs : h.IsSequence s es) (hi : ∀ k, ¬Names i es.length k) :
    h.loadIndex s (.int i) = .error (.indexOutOfRange i) := by
  cases hs with
  | list a =>
    have hslot : slot i (h.list a).size = .error (.indexOutOfRange i) := slot_of_not_names hi
    rw [loadIndex, sequenceIndex, ok_bind, hslot]
    rfl
  | str t =>
    rw [List.length_map] at hi
    rw [loadIndex, sequenceIndex, ok_bind, slot_of_not_names hi]
    rfl

end IsSequence

theorem toInt_ofNat_of_fits {n : ℕ} (hn : Fits n) : (Int64.ofNat n).toInt = n := by
  have hlt := (fits_iff.1 hn).2
  exact Int64.toInt_ofNat_of_lt (by omega)

/-- What a program learns of a sequence by its length and by indices. -/
structure Reads (h : Heap) (s : Value) (es : List Value) : Prop where
  length : ∃ n : Int64, h.builtin .len [s] = .ok (.int n, h) ∧ n.toInt = es.length
  elements : h.elements s = .ok (es, h)
  names : ∀ (i : Int64) (k : ℕ) (hi : Names i es.length k),
    h.loadIndex s (.int i) = .ok (es.get ⟨k, hi.1⟩)
  refuses : ∀ i : Int64, (∀ k, ¬Names i es.length k) →
    h.loadIndex s (.int i) = .error (.indexOutOfRange i)

/-- The length is the number of elements, as far as it has a place in 64 bits. -/
theorem IsSequence.reads (hs : h.IsSequence s es) (hn : Fits es.length) : h.Reads s es where
  length := ⟨_, hs.length_eq, toInt_ofNat_of_fits hn⟩
  elements := hs.elements_eq
  names _ _ hi := hs.loadIndex_of_names hi
  refuses _ hi := hs.loadIndex_of_not_names hi

/-! ### Loops -/

/-- A loop over a value goes through given elements. When it begins, they are kept in an iterator;
in each round the next one is pushed, whatever has become of the scene in the rounds before; behind
the last one the loop is left. -/
structure Iterates (h : Heap) (s : Value) (es : List Value) : Prop where
  begins : ∀ (c : Context) (p : ℕ) (stack : Array Value) (scene : Scene), scene.heap = h →
    Instr.iterStart.Leads (c.state p (stack.push s) scene) ((c.iterate es).state p stack scene)
  goesOn : ∀ (c : Context) (p exit : ℕ) (stack : Array Value) (scene : Scene) (k : Fin es.length),
    (Instr.iterNext exit).Leads ((c.iterate (es.drop k)).state p stack scene)
      ((c.iterate (es.drop (k + 1))).state p (stack.push es[k]) scene)
  ends : ∀ (c : Context) (p exit : ℕ) (stack : Array Value) (scene : Scene),
    (Instr.iterNext exit).Leads ((c.iterate (es.drop es.length)).state p stack scene)
      (c.state exit stack scene)

theorem iterates (helements : h.elements s = .ok (es, h)) : h.Iterates s es where
  begins c p stack scene hscene code maxCalls w := by
    rw [← hscene] at helements
    simp only [Instr.execute, c.pop_bind, c.elements_bind_of_ok _ _ _ helements]
    exact stateBind_of_ok (c.changeScope_iterators _ _ _ (es :: ·))
  goesOn c p exit stack scene k code maxCalls w := by
    rw [List.drop_eq_getElem_cons k.isLt]
    exact c.execute_iterNext code maxCalls w p stack scene exit _ _
  ends c p exit stack scene code maxCalls w := by
    rw [List.drop_length]
    exact c.execute_iterNext_nil code maxCalls w p stack scene exit

/-! ### Replacing -/

/-- What becomes of a list when a program tries to replace one of its elements. An attempt that is
refused makes no new heap. -/
structure Stores (h : Heap) (a : Nat) (v : Value) : Prop where
  names : ∀ (i : Int64) (k : ℕ), Names i (h.list a).size k →
    ∃ h', h.storeIndex (.list a) (.int i) v = .ok h' ∧
      (h'.list a).toList = (h.list a).toList.set k v ∧ (∀ b ≠ a, h'.list b = h.list b) ∧
        h'.sets = h.sets ∧ h'.maps = h.maps
  refuses : ∀ i : Int64, (∀ k, ¬Names i (h.list a).size k) →
    h.storeIndex (.list a) (.int i) v = .error (.indexOutOfRange i)

/-- There are no elements where there is no list. -/
theorem lt_size_lists_of_lt {a : Nat} (hk : k < (h.list a).size) : a < h.lists.size := by
  by_contra ha
  rw [list, Array.getElem?_eq_none (Nat.le_of_not_lt ha)] at hk
  exact Nat.not_lt_zero k hk

theorem stores (h : Heap) (a : Nat) (v : Value) : h.Stores a v where
  names i k hi := by
    have hstore : h.storeIndex (.list a) (.int i) v =
        .ok (h.modifyList a (·.setIfInBounds k v)) := by
      rw [storeIndex, sequenceIndex, ok_bind, slot_of_names hi]
      rfl
    refine ⟨_, hstore, ?_, fun b hb => list_modifyList_of_ne hb _, rfl, rfl⟩
    rw [list_modifyList h (lt_size_lists_of_lt hi.1), Array.toList_setIfInBounds]
  refuses i hi := by
    rw [storeIndex, sequenceIndex, ok_bind, slot_of_not_names hi]
    rfl

/-! ### Searching -/

/-- What a program learns when it looks for a string in another one: whether it occurs, and where it
does first, which is the same place in characters and in bytes. -/
structure Searches (h : Heap) (s t : String) (found : Bool) (n : Int64) : Prop where
  has : h.callMethod (.str s) .has [.str t] = .ok (.bool found, h)
  indexOf : h.callMethod (.str s) .indexOf [.str t] = .ok (.int n, h)
  found_iff_ne : found = true ↔ n.toInt ≠ -1
  found_iff : found = true ↔ (Text.occurrences t.toList s.toList).Nonempty
  found_iff_utf8 : found = true ↔ (Text.occurrences (utf8 t) (utf8 s)).Nonempty
  first : found = true → ∃ k : ℕ, n.toInt = k ∧ IsLeast (Text.occurrences t.toList s.toList) k ∧
    IsLeast (Text.occurrences (utf8 t) (utf8 s)) (utf8 (String.ofList (s.toList.take k))).length

theorem callMethod_str_has (h : Heap) (s t : String) :
    h.callMethod (.str s) .has [.str t] =
      .ok (.bool (Text.find? t.toList s.toList).isSome, h) := rfl

theorem callMethod_str_indexOf (h : Heap) (s t : String) :
    h.callMethod (.str s) .indexOf [.str t] =
      .ok (.int (((Text.find? t.toList s.toList).map Int64.ofNat).getD (-1)), h) := by
  have hindexOf : strMethod s .indexOf [.str t] =
      .ok (.int (((Text.find? t.toList s.toList).map Int64.ofNat).getD (-1))) := by
    rw [strMethod]
    split
    · next hfind => rw [hfind]; rfl
    · next hfind => rw [hfind]; rfl
  exact congrArg (· >>= fun v => .ok (v, h)) hindexOf

theorem exists_searches (h : Heap) (t : String) {s : String} (hs : Fits s.length) :
    ∃ found n, h.Searches s t found n := by
  have hplace {k : ℕ} (hk : Text.find? t.toList s.toList = some k) :
      (((Text.find? t.toList s.toList).map Int64.ofNat).getD (-1)).toInt = k := by
    have hle := Text.le_length_of_isLeast (Text.find?_eq_some_iff.1 hk)
    rw [String.length_toList] at hle
    have hfits : Fits k := fits_iff.2 ⟨by omega, (Int.ofNat_le.2 hle).trans_lt (fits_iff.1 hs).2⟩
    rw [hk]
    exact toInt_ofNat_of_fits hfits
  refine ⟨_, _, h.callMethod_str_has s t, h.callMethod_str_indexOf s t, ?_, Text.isSome_find?_iff,
    Text.isSome_find?_iff.trans Text.nonempty_occurrences_utf8_iff.symm, fun hfound => ?_⟩
  · cases hfind : Text.find? t.toList s.toList with
    | none => decide
    | some k =>
      have hk := hplace hfind
      rw [hfind] at hk
      rw [hk]
      exact iff_of_true rfl (by omega)
  · obtain ⟨k, hk⟩ := Option.isSome_iff_exists.1 hfound
    have hleast := Text.find?_eq_some_iff.1 hk
    exact ⟨k, hplace hk, hleast, Text.isLeast_occurrences_utf8 hleast⟩

end Heap

/-- All ways in which a program reaches the elements of a list or the characters of a string agree.
There are no more of them than the memory has bytes, so that their number has a place in 64 bits. -/
theorem Heap.sequences_agree (h : Heap) :
    (∀ s es, h.IsSequence s es → Fits es.length → h.Reads s es ∧ h.Iterates s es) ∧
      (∀ a v, h.Stores a v) ∧
      ∀ s t : String, Fits s.length → ∃ found n, h.Searches s t found n :=
  ⟨fun _ _ hs hn => ⟨hs.reads hn, h.iterates hs.elements_eq⟩, h.stores,
    fun _ t hs => h.exists_searches t hs⟩

/-- Two of these characters are written with two bytes each. -/
theorem Heap.sequences_agree_accents :
    let es := [.str "é", .str "t", .str "é"]
    Heap.empty.IsSequence (.str "été") es ∧ Fits es.length ∧ Heap.empty.Reads (.str "été") es ∧
      ∃ found n, Heap.empty.Searches "été" "t" found n :=
  have hs : Heap.empty.IsSequence (.str "été") [.str "é", .str "t", .str "é"] := .str "été"
  have hn : Fits (3 : ℕ) := by decide
  ⟨hs, hn, ((Heap.sequences_agree .empty).1 _ _ hs hn).1,
    (Heap.sequences_agree .empty).2.2 "été" "t" hn⟩

end Labyrinth
