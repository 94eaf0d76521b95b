import Labyrinth.Proofs.Utf8
import Labyrinth.Text.Search
import Mathlib.Order.Lattice.Nat

/-!
# Occurrences of texts

The search in a text finds the first **occurrence** of another one. Positions are counted in
characters; the same search can be made in the UTF-8 encodings, where positions are counted in
bytes. Both find the same place, because an encoding cannot begin in the middle of another
character: the first byte of a character is told from the bytes that continue one.

## Main results

* `Text.find?_eq_some_iff`, `Text.find?_eq_none_iff`: what the search finds.
* `Text.bytes_isPrefix_iff`: an encoded text begins with another one exactly if the text does.
* `Text.isLeast_occurrences_utf8`: the first occurrence, in characters and in bytes.
-/

namespace Labyrinth.Text

/-- The positions from which on a text begins with another one. -/
def occurrences {α : Type} (needle text : List α) : Set ℕ := {k | needle <+: text.drop k}

/-! ### The first occurrence -/

section First

variable {α : Type} {needle text : List α} {x : α} {k : ℕ}

theorem isLeast_occurrences_zero (h : needle <+: text) : IsLeast (occurrences needle text) 0 :=
  ⟨h, fun k _ => Nat.zero_le k⟩

/-- Where a text does not begin with the other one, the search goes on in the rest. -/
theorem isLeast_occurrences_succ (h : ¬needle <+: x :: text) :
    IsLeast (occurrences needle (x :: text)) (k + 1) ↔ IsLeast (occurrences needle text) k := by
  constructor
  · rintro ⟨hmem, hleast⟩
    exact ⟨hmem, fun j hj => Nat.le_of_succ_le_succ (hleast (a := j + 1) hj)⟩
  · rintro ⟨hmem, hleast⟩
    refine ⟨hmem, fun j hj => ?_⟩
    cases j with
    | zero => exact absurd hj h
    | succ j => exact Nat.succ_le_succ (hleast hj)

theorem not_isLeast_occurrences_zero (h : ¬needle <+: text) :
    ¬IsLeast (occurrences needle text) 0 := fun hleast => h hleast.1

end First

section Search

variable {needle text : List Char} {c : Char} {k : ℕ}

theorem findFrom?_succ (needle : List Char) (i : ℕ) (text : List Char) :
    findFrom? needle (i + 1) text = (findFrom? needle i text).map (· + 1) := by
  induction text generalizing i with
  | nil =>
    rw [findFrom?, findFrom?]
    split <;> rfl
  | cons c text ih =>
    rw [findFrom?, findFrom?, ih]
    split <;> rfl

theorem find?_of_isPrefix (h : needle <+: text) : find? needle text = some 0 := by
  cases text with
  | nil =>
    obtain rfl := List.prefix_nil.1 h
    rfl
  | cons c text => exact if_pos (List.isPrefixOf_iff_prefix.2 h)

theorem find?_cons_of_not_isPrefix (h : ¬needle <+: c :: text) :
    find? needle (c :: text) = (find? needle text).map (· + 1) := by
  rw [find?, findFrom?, if_neg (List.isPrefixOf_iff_prefix.not.2 h), findFrom?_succ, find?]

theorem find?_eq_some_iff_of_isPrefix (h : needle <+: text) :
    find? needle text = some k ↔ IsLeast (occurrences needle text) k := by
  have hzero := isLeast_occurrences_zero h
  rw [find?_of_isPrefix h, Option.some.injEq]
  exact ⟨fun heq => heq ▸ hzero, hzero.unique⟩

/-- The search finds the first occurrence. -/
theorem find?_eq_some_iff :
    find? needle text = some k ↔ IsLeast (occurrences needle text) k := by
  induction text generalizing k with
  | nil =>
    by_cases hprefix : needle <+: []
    · exact find?_eq_some_iff_of_isPrefix hprefix
    · have hnone : find? needle [] = none :=
        if_neg fun hnil => hprefix (List.isEmpty_iff.1 hnil ▸ List.nil_prefix)
      rw [hnone]
      refine iff_of_false nofun fun hleast => hprefix ?_
      have hmem : needle <+: [].drop k := hleast.1
      rwa [List.drop_nil] at hmem
  | cons c text ih =>
    by_cases hprefix : needle <+: c :: text
    · exact find?_eq_some_iff_of_isPrefix hprefix
    · rw [find?_cons_of_not_isPrefix hprefix, Option.map_eq_some_iff]
      cases k with
      | zero =>
        exact iff_of_false (fun ⟨j, _, hj⟩ => Nat.succ_ne_zero j hj)
          (not_isLeast_occurrences_zero hprefix)
      | succ k =>
        rw [isLeast_occurrences_succ hprefix, ← ih]
        simp

/-- The search finds nothing exactly if there is no occurrence. -/
theorem find?_eq_none_iff : find? needle text = none ↔ occurrences needle text = ∅ := by
  constructor
  · intro h
    by_contra hne
    have hleast : IsLeast (occurrences needle text) (sInf (occurrences needle text)) :=
      ⟨Nat.sInf_mem (Set.nonempty_iff_ne_empty.2 hne), fun _ => Nat.sInf_le⟩
    rw [← find?_eq_some_iff, h] at hleast
    cases hleast
  · intro h
    cases hfind : find? needle text with
    | none => rfl
    | some k =>
      have hmem := (find?_eq_some_iff.1 hfind).1
      rw [h] at hmem
      exact hmem.elim

theorem isSome_find?_iff :
    (find? needle text).isSome = true ↔ (occurrences needle text).Nonempty := by
  rw [Option.isSome_iff_ne_none, Ne, find?_eq_none_iff, Set.nonempty_iff_ne_empty]

/-- The first occurrence does not lie behind the text. -/
theorem le_length_of_isLeast (h : IsLeast (occurrences needle text) k) : k ≤ text.length := by
  by_contra hlt
  -- Behind the text there is nothing to be read but the end, which is at its length, too.
  have hmem : needle <+: text.drop k := h.1
  rw [List.drop_eq_nil_of_le (Nat.le_of_not_le hlt), ← List.drop_length (l := text)] at hmem
  exact hlt (h.2 hmem)

end Search

/-! ### Occurrences in encodings -/

section Encoding

/-- The bytes of several characters. -/
def bytes (cs : List Char) : List UInt8 := cs.flatMap String.utf8EncodeChar

variable {needle text : List Char} {c d : Char} {s t : List UInt8}

theorem bytes_append (cs ds : List Char) : bytes (cs ++ ds) = bytes cs ++ bytes ds :=
  List.flatMap_append

/-- The bytes of a character tell where it ends. -/
theorem utf8EncodeChar_append_inj
    (h : String.utf8EncodeChar c ++ s = String.utf8EncodeChar d ++ t) : c = d ∧ s = t := by
  obtain hlt | rfl | hlt := lt_trichotomy c d
  · exact absurd (utf8_append_lt hlt s t) (h ▸ List.lt_irrefl _)
  · exact ⟨rfl, List.append_cancel_left h⟩
  · exact absurd (utf8_append_lt hlt t s) (h ▸ List.lt_irrefl _)

/-- An encoded text begins with another one exactly if the text does. -/
theorem bytes_isPrefix_iff : bytes needle <+: bytes text ↔ needle <+: text := by
  constructor
  · intro h
    induction needle generalizing text with
    | nil => exact List.nil_prefix
    | cons c needle ih =>
      obtain ⟨rest, hrest⟩ := h
      cases text with
      | nil =>
        have hnil := List.append_eq_nil_iff.1 (List.append_eq_nil_iff.1 hrest).1
        exact absurd hnil.1 String.utf8EncodeChar_ne_nil
      | cons d text =>
        simp only [bytes, List.flatMap_cons, List.append_assoc] at hrest
        obtain ⟨rfl, htail⟩ := utf8EncodeChar_append_inj hrest
        exact List.cons_prefix_cons.2 ⟨rfl, ih ⟨rest, htail⟩⟩
  · rintro ⟨rest, rfl⟩
    rw [bytes_append]
    exact List.prefix_append _ _

/-- What is left of an encoded text behind some of its characters. -/
theorem drop_bytes (text : List Char) (k : ℕ) :
    (bytes text).drop (bytes (text.take k)).length = bytes (text.drop k) := by
  conv_lhs => rw [← List.take_append_drop k text, bytes_append]
  simp

/-- A byte that begins a character lies between the characters before it and those behind it. -/
theorem exists_eq_length_take {b : ℕ} {u : UInt8} (hu : (bytes text)[b]? = some u)
    (hfirst : u.IsUTF8FirstByte) : ∃ k ≤ text.length, b = (bytes (text.take k)).length := by
  induction text generalizing b with
  | nil => simp [bytes] at hu
  | cons c text ih =>
    rw [bytes, List.flatMap_cons] at hu
    rcases Nat.lt_or_ge b (String.utf8EncodeChar c).length with hb | hb
    · rw [List.getElem?_append_left hb, List.getElem?_eq_getElem hb, Option.some.injEq] at hu
      rw [← hu, UInt8.isUTF8FirstByte_getElem_utf8EncodeChar] at hfirst
      exact ⟨0, Nat.zero_le _, hfirst⟩
    · rw [List.getElem?_append_right hb] at hu
      obtain ⟨k, hk, heq⟩ := ih hu
      refine ⟨k + 1, Nat.succ_le_succ hk, ?_⟩
      rw [List.take_succ_cons, bytes, List.flatMap_cons, List.length_append, ← bytes, ← heq]
      omega

/-- An encoded text that is not empty occurs between characters only. -/
theorem exists_of_mem_occurrences_bytes {b : ℕ} (hne : needle ≠ [])
    (h : b ∈ occurrences (bytes needle) (bytes text)) :
    ∃ k ∈ occurrences needle text, b = (bytes (text.take k)).length := by
  obtain ⟨rest, hrest⟩ := h
  have hu : ∃ u, (bytes text)[b]? = some u ∧ u.IsUTF8FirstByte := by
    obtain ⟨d, ds, rfl⟩ := List.exists_cons_of_ne_nil hne
    have hpos : 0 < (String.utf8EncodeChar d).length :=
      List.length_pos_iff.2 String.utf8EncodeChar_ne_nil
    refine ⟨(String.utf8EncodeChar d)[0], ?_, UInt8.isUTF8FirstByte_getElem_zero_utf8EncodeChar⟩
    rw [← Nat.add_zero b, ← List.getElem?_drop, ← hrest, bytes, List.flatMap_cons,
      List.append_assoc, List.getElem?_append_left hpos]
    exact List.getElem?_eq_getElem hpos
  obtain ⟨u, hu, hfirst⟩ := hu
  obtain ⟨k, -, rfl⟩ := exists_eq_length_take hu hfirst
  rw [drop_bytes] at hrest
  exact ⟨k, bytes_isPrefix_iff.1 ⟨rest, hrest⟩, rfl⟩

theorem mem_occurrences_bytes {k : ℕ} (h : k ∈ occurrences needle text) :
    (bytes (text.take k)).length ∈ occurrences (bytes needle) (bytes text) := by
  have hprefix : bytes needle <+: (bytes text).drop (bytes (text.take k)).length := by
    rw [drop_bytes]
    exact bytes_isPrefix_iff.2 h
  exact hprefix

theorem length_bytes_take_mono {j k : ℕ} (h : j ≤ k) :
    (bytes (text.take j)).length ≤ (bytes (text.take k)).length := by
  obtain ⟨rest, hrest⟩ := List.take_prefix_take_left (l := text) h
  rw [← hrest, bytes_append, List.length_append]
  exact Nat.le_add_right _ _

/-- The first occurrence of an encoded text lies behind the characters in front of the first
occurrence of the text. -/
theorem isLeast_occurrences_bytes {k : ℕ} (h : IsLeast (occurrences needle text) k) :
    IsLeast (occurrences (bytes needle) (bytes text)) (bytes (text.take k)).length := by
  refine ⟨mem_occurrences_bytes h.1, fun b hb => ?_⟩
  rcases eq_or_ne needle [] with rfl | hne
  · -- The empty text occurs at the very beginning, where there is nothing to be counted.
    have hzero : k = 0 := Nat.le_zero.1 (h.2 List.nil_prefix)
    rw [hzero]
    exact Nat.zero_le b
  · obtain ⟨j, hj, rfl⟩ := exists_of_mem_occurrences_bytes hne hb
    exact length_bytes_take_mono (h.2 hj)

theorem nonempty_occurrences_bytes_iff :
    (occurrences (bytes needle) (bytes text)).Nonempty ↔ (occurrences needle text).Nonempty := by
  constructor
  · rintro ⟨b, hb⟩
    rcases eq_or_ne needle [] with rfl | hne
    · exact ⟨0, List.nil_prefix⟩
    · obtain ⟨k, hk, -⟩ := exists_of_mem_occurrences_bytes hne hb
      exact ⟨k, hk⟩
  · rintro ⟨k, hk⟩
    exact ⟨_, mem_occurrences_bytes hk⟩

/-- The first occurrence in a string, in characters and in bytes. -/
theorem isLeast_occurrences_utf8 {s t : String} {k : ℕ}
    (h : IsLeast (occurrences t.toList s.toList) k) :
    IsLeast (occurrences (utf8 t) (utf8 s)) (utf8 (String.ofList (s.toList.take k))).length := by
  rw [utf8_eq, utf8_eq, utf8_eq, String.toList_ofList]
  exact isLeast_occurrences_bytes h

theorem nonempty_occurrences_utf8_iff {s t : String} :
    (occurrences (utf8 t) (utf8 s)).Nonempty ↔ (occurrences t.toList s.toList).Nonempty := by
  rw [utf8_eq, utf8_eq]
  exact nonempty_occurrences_bytes_iff

end Encoding

end Labyrinth.Text
