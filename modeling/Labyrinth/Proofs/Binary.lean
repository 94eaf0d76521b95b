import Labyrinth.Binary
import Mathlib.Data.List.Nodup
import Mathlib.Data.Set.Basic

/-!
# Reading and writing messages

The binary form of a message delimits itself: bytes are read as a message exactly if they begin with
what is written of it. So every message is read back, whatever follows it; and bytes that are too
short, that name no possibility, or that are no text where one is due are refused, because nobody
writes them.

## Main results

* `eq_littleEndian_of_takeBytes`: the bytes of a word that is read.
* `exactOn_choice`: one of several possibilities.
* `exactOn_text`: a text whose length has a place in the word before it.
* `exactOn_messages`: all messages.
-/

namespace Labyrinth.Binary

/-! ### Numbers -/

section Numbers

variable {bytes front rest : List UInt8} {count : ℕ}

theorem takeBytes_eq_some_iff :
    takeBytes count bytes = some (front, rest) ↔ front.length = count ∧ bytes = front ++ rest := by
  constructor
  · intro h
    obtain ⟨hle, heq⟩ := Option.ite_none_right_eq_some.1 h
    obtain ⟨rfl, rfl⟩ := Prod.mk.inj (Option.some.inj heq)
    exact ⟨List.length_take_of_le hle, (List.take_append_drop _ _).symm⟩
  · rintro ⟨rfl, rfl⟩
    exact takeBytes_append front rest

theorem ofLittleEndian_lt (bytes : List UInt8) : ofLittleEndian bytes < capacity bytes.length := by
  induction bytes with
  | nil => exact Nat.one_pos
  | cons b bytes ih =>
    have hb := b.toNat_lt
    simp only [ofLittleEndian, List.length_cons, capacity]
    omega

theorem littleEndian_ofLittleEndian (bytes : List UInt8) :
    littleEndian bytes.length (ofLittleEndian bytes) = bytes := by
  induction bytes with
  | nil => rfl
  | cons b bytes ih =>
    have hb := b.toNat_lt
    have hlow : UInt8.ofNat (b.toNat + 256 * ofLittleEndian bytes) = b := by
      rw [← UInt8.toNat_inj, UInt8.toNat_ofNat']
      omega
    have hhigh : (b.toNat + 256 * ofLittleEndian bytes) / 256 = ofLittleEndian bytes := by omega
    simp only [ofLittleEndian, List.length_cons, littleEndian, hlow, hhigh, ih]

/-- The bytes of a word that is read are those of its number. -/
theorem eq_littleEndian_of_takeBytes (h : takeBytes count bytes = some (front, rest)) :
    ofLittleEndian front < capacity count ∧
      bytes = littleEndian count (ofLittleEndian front) ++ rest := by
  obtain ⟨rfl, rfl⟩ := takeBytes_eq_some_iff.1 h
  rw [littleEndian_ofLittleEndian]
  exact ⟨ofLittleEndian_lt front, rfl⟩

end Numbers

/-! ### Exact formats -/

/-- A format is **exact** on a set of values: bytes are read as a value exactly if it belongs to the
set and the bytes begin with what is written of it. The rest of the bytes is what follows. -/
def Format.ExactOn {α : Type} (f : Format α) (s : Set α) : Prop :=
  ∀ bytes x rest, f.decode bytes = some (x, rest) ↔ x ∈ s ∧ bytes = f.encode x ++ rest

variable {α β : Type} {bytes rest : List UInt8}

/-- A format that reads back everything is exact if nothing else is read. -/
theorem Format.Lawful.exactOn {f : Format α} (h : f.Lawful)
    (hread : ∀ bytes x rest, f.decode bytes = some (x, rest) → bytes = f.encode x ++ rest) :
    f.ExactOn Set.univ := by
  intro bytes x rest
  refine ⟨fun hdecode => ⟨trivial, hread bytes x rest hdecode⟩, ?_⟩
  rintro ⟨-, rfl⟩
  exact h x rest

/-- What is read after a value. -/
theorem Format.ExactOn.bind_eq_some_iff {f : Format α} {s : Set α} (h : f.ExactOn s)
    {k : α × List UInt8 → Option β} {y : β} :
    (f.decode bytes >>= k) = some y ↔
      ∃ x ∈ s, ∃ behind, bytes = f.encode x ++ behind ∧ k (x, behind) = some y := by
  constructor
  · intro hbind
    obtain ⟨⟨x, behind⟩, hdecode, hk⟩ := Option.bind_eq_some_iff.1 hbind
    obtain ⟨hx, hbytes⟩ := (h _ _ _).1 hdecode
    exact ⟨x, hx, behind, hbytes, hk⟩
  · rintro ⟨x, hx, behind, hbytes, hk⟩
    exact Option.bind_eq_some_iff.2 ⟨_, (h _ _ _).2 ⟨hx, hbytes⟩, hk⟩

theorem exactOn_word32 : word32.ExactOn Set.univ := by
  refine lawful_word32.exactOn fun bytes n rest h => ?_
  obtain ⟨⟨front, _⟩, htake, heq⟩ := Option.bind_eq_some_iff.1 h
  obtain ⟨rfl, rfl⟩ := Prod.mk.inj (Option.some.inj heq)
  obtain ⟨hlt, hbytes⟩ := eq_littleEndian_of_takeBytes htake
  simp only [word32, UInt32.toNat_ofNat_of_lt' hlt]
  exact hbytes

theorem exactOn_word64 : word64.ExactOn Set.univ := by
  refine lawful_word64.exactOn fun bytes n rest h => ?_
  obtain ⟨⟨front, _⟩, htake, heq⟩ := Option.bind_eq_some_iff.1 h
  obtain ⟨rfl, rfl⟩ := Prod.mk.inj (Option.some.inj heq)
  obtain ⟨hlt, hbytes⟩ := eq_littleEndian_of_takeBytes htake
  simp only [word64, UInt64.toNat_ofNat_of_lt' hlt]
  exact hbytes

theorem exactOn_coord : coord.ExactOn Set.univ := by
  intro bytes c rest
  simp only [coord, exactOn_word32.bind_eq_some_iff]
  constructor
  · rintro ⟨column, -, behind, rfl, row, -, _, rfl, h⟩
    obtain ⟨rfl, rfl⟩ := Prod.mk.inj (Option.some.inj h)
    exact ⟨trivial, (List.append_assoc _ _ _).symm⟩
  · rintro ⟨-, rfl⟩
    exact ⟨c.column, trivial, _, List.append_assoc _ _ _, c.row, trivial, rest, rfl, rfl⟩

/-- One of several possibilities, of which none is named twice. -/
theorem exactOn_choice [DecidableEq α] {all : List α} (hall : ∀ x, x ∈ all) (hnodup : all.Nodup)
    (hlength : all.length < 4294967296) : (choice all).ExactOn Set.univ := by
  intro bytes x rest
  have hindex (y : α) : (UInt32.ofNat (all.idxOf y)).toNat = all.idxOf y :=
    UInt32.toNat_ofNat_of_lt' ((List.idxOf_lt_length_of_mem (hall y)).trans hlength)
  simp only [choice, exactOn_word32.bind_eq_some_iff]
  constructor
  · rintro ⟨i, -, _, rfl, h⟩
    obtain ⟨y, hy, h⟩ := Option.bind_eq_some_iff.1 h
    obtain ⟨rfl, rfl⟩ := Prod.mk.inj (Option.some.inj h)
    obtain ⟨hlt, hget⟩ := List.getElem?_eq_some_iff.1 hy
    have hi : UInt32.ofNat (all.idxOf y) = i := by
      rw [← UInt32.toNat_inj, hindex, ← hget, hnodup.idxOf_getElem]
    exact ⟨trivial, by rw [hi]⟩
  · rintro ⟨-, rfl⟩
    refine ⟨_, trivial, rest, rfl, Option.bind_eq_some_iff.2 ⟨x, ?_, rfl⟩⟩
    rw [hindex]
    exact List.getElem?_idxOf (hall x)

/-! ### Texts -/

theorem fromUTF8?_eq_some_iff {b : ByteArray} {s : String} :
    String.fromUTF8? b = some s ↔ s.toUTF8 = b := by
  constructor
  · intro h
    obtain ⟨hvalid, hs⟩ := Option.dite_none_right_eq_some.1 h
    rw [← Option.some.inj hs]
    rfl
  · rintro rfl
    rw [String.fromUTF8?, dif_pos (s.toUTF8_eq_toByteArray ▸ s.isValidUTF8)]
    rfl

/-- The texts whose length has a place in the word before them. -/
def shortTexts : Set String := {s | s.utf8ByteSize < 18446744073709551616}

theorem exactOn_text : text.ExactOn shortTexts := by
  intro bytes s rest
  have hsize : s.toUTF8.data.toList.length = s.utf8ByteSize := by simp
  simp only [text, exactOn_word64.bind_eq_some_iff]
  constructor
  · rintro ⟨count, -, _, rfl, h⟩
    obtain ⟨⟨front, _⟩, htake, h⟩ := Option.bind_eq_some_iff.1 h
    obtain ⟨s, hs, h⟩ := Option.bind_eq_some_iff.1 h
    obtain ⟨rfl, rfl⟩ := Prod.mk.inj (Option.some.inj h)
    obtain ⟨hlength, rfl⟩ := takeBytes_eq_some_iff.1 htake
    have hfront : s.toUTF8.data.toList = front := by rw [fromUTF8?_eq_some_iff.1 hs]
    rw [hfront, hlength] at hsize
    have hshort : s.utf8ByteSize < 18446744073709551616 := hsize ▸ count.toNat_lt
    refine ⟨hshort, ?_⟩
    rw [hfront, hlength, UInt64.ofNat_toNat, List.append_assoc]
  · rintro ⟨hshort, rfl⟩
    refine ⟨_, trivial, _, List.append_assoc _ _ _, ?_⟩
    rw [hsize, UInt64.toNat_ofNat_of_lt' hshort, ← hsize, takeBytes_append]
    refine Option.bind_eq_some_iff.2 ⟨_, rfl, Option.bind_eq_some_iff.2 ⟨s, ?_, rfl⟩⟩
    exact fromUTF8?_eq_some_iff.2 rfl

/-! ### Messages -/

/-- The text that a result carries. -/
def carried : RunResult → String
  | .failed reason => reason
  | .errored message => message
  | _ => ""

theorem exactOn_result : result.ExactOn {r | carried r ∈ shortTexts} := by
  have hempty : "" ∈ shortTexts := by simp [shortTexts]
  intro bytes r rest
  simp only [result, exactOn_word32.bind_eq_some_iff]
  constructor
  · rintro ⟨i, -, behind, rfl, h⟩
    have hword {j : UInt32} (hi : i.toNat = j.toNat) : i = j := UInt32.toNat_inj.1 hi
    split at h
    · next hi =>
      obtain ⟨rfl, rfl⟩ := Prod.mk.inj (Option.some.inj h)
      obtain rfl : i = 0 := hword hi
      exact ⟨hempty, rfl⟩
    · next hi =>
      rw [exactOn_text.bind_eq_some_iff] at h
      obtain ⟨reason, hshort, _, rfl, h⟩ := h
      obtain ⟨rfl, rfl⟩ := Prod.mk.inj (Option.some.inj h)
      obtain rfl : i = 1 := hword hi
      exact ⟨hshort, (List.append_assoc _ _ _).symm⟩
    · next hi =>
      rw [exactOn_text.bind_eq_some_iff] at h
      obtain ⟨message, hshort, _, rfl, h⟩ := h
      obtain ⟨rfl, rfl⟩ := Prod.mk.inj (Option.some.inj h)
      obtain rfl : i = 2 := hword hi
      exact ⟨hshort, (List.append_assoc _ _ _).symm⟩
    · next hi =>
      rw [exactOn_word64.bind_eq_some_iff] at h
      obtain ⟨executed, -, _, rfl, h⟩ := h
      obtain ⟨rfl, rfl⟩ := Prod.mk.inj (Option.some.inj h)
      obtain rfl : i = 3 := hword hi
      exact ⟨hempty, (List.append_assoc _ _ _).symm⟩
    · cases h
  · rintro ⟨hshort, rfl⟩
    cases r with
    | win => exact ⟨0, trivial, rest, rfl, rfl⟩
    | failed reason =>
      exact ⟨1, trivial, _, List.append_assoc _ _ _,
        exactOn_text.bind_eq_some_iff.2 ⟨reason, hshort, rest, rfl, rfl⟩⟩
    | errored message =>
      exact ⟨2, trivial, _, List.append_assoc _ _ _,
        exactOn_text.bind_eq_some_iff.2 ⟨message, hshort, rest, rfl, rfl⟩⟩
    | budgetExhausted executed =>
      exact ⟨3, trivial, _, List.append_assoc _ _ _,
        exactOn_word64.bind_eq_some_iff.2 ⟨executed, trivial, rest, rfl, rfl⟩⟩

/-- Messages of every kind are read exactly where they have been written. A machine holds no text
whose length has no place in a word of eight bytes. -/
theorem exactOn_messages :
    coord.ExactOn Set.univ ∧ kind.ExactOn Set.univ ∧ direction.ExactOn Set.univ ∧
      dialect.ExactOn Set.univ ∧ result.ExactOn {r | carried r ∈ shortTexts} := by
  refine ⟨exactOn_coord, ?_, ?_, ?_, exactOn_result⟩
  · exact exactOn_choice (fun x => by cases x <;> decide) (by decide) (by decide)
  · exact exactOn_choice Direction.mem_all (by decide) (by decide)
  · exact exactOn_choice (fun x => by cases x <;> decide) (by decide) (by decide)

end Labyrinth.Binary
