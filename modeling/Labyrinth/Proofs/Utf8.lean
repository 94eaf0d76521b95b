import Mathlib.Data.List.Lex
import Mathlib.Data.Char
import Mathlib.Data.String.Basic

/-!
# The order of strings

Strings are compared character by character. Their UTF-8 encodings are in the same order, byte by
byte: of two characters, the one with the greater code point has the greater encoding, whatever
follows.

## Main results

* `utf8_append_lt`: the encodings of two characters, and of texts that begin with them.
* `string_lt_iff`: strings are in the order of their encodings.
-/

namespace Labyrinth

/-- Of two characters, the one with the greater code point has the greater encoding, and this
decides about the texts behind them. -/
theorem utf8_append_lt {c d : Char} (h : c < d) (s t : List UInt8) :
    String.utf8EncodeChar c ++ s < String.utf8EncodeChar d ++ t := by
  have hlt : c.val.toNat < d.val.toNat := h
  have hvalid : d.val.toNat < 0x110000 := by
    rcases d.valid with hd | ⟨-, hd⟩
    · exact Nat.lt_trans hd (by decide)
    · exact hd
  generalize hm : c.val.toNat = m at hlt
  generalize hn : d.val.toNat = n at hlt hvalid
  -- Either the encodings have different lengths, and then different first bytes, or the first byte
  -- in which they differ is a digit of the code point.
  have hsecond (k : Nat) : k / 4096 = k / 64 / 64 := (Nat.div_div_eq_div_mul k 64 64).symm
  have hthird (k : Nat) : k / 262144 = k / 64 / 64 / 64 := by
    rw [Nat.div_div_eq_div_mul, Nat.div_div_eq_div_mul]
  simp only [String.utf8EncodeChar, hm, hn, hsecond, hthird]
  split_ifs <;>
    simp only [List.cons_append, List.cons_lt_cons_iff, UInt8.lt_iff_toNat_lt, ← UInt8.toNat_inj,
      UInt8.toNat_ofNat'] <;>
    omega

theorem append_lt_append_left (xs : List UInt8) {ys zs : List UInt8} (h : ys < zs) :
    xs ++ ys < xs ++ zs := by
  induction xs with
  | nil => exact h
  | cons x xs ih => exact List.cons_lt_cons_iff.2 (.inr ⟨rfl, ih⟩)

theorem utf8_flatMap_lt {cs ds : List Char} (h : cs < ds) :
    cs.flatMap String.utf8EncodeChar < ds.flatMap String.utf8EncodeChar := by
  induction cs generalizing ds with
  | nil =>
    cases ds with
    | nil => exact (List.lt_irrefl _ h).elim
    | cons d ds =>
      rw [List.flatMap_nil, List.flatMap_cons]
      cases hd : String.utf8EncodeChar d with
      | nil => exact (String.utf8EncodeChar_ne_nil hd).elim
      | cons x xs => exact List.nil_lt_cons _ _
  | cons c cs ih =>
    cases ds with
    | nil => exact (List.not_lt_nil _ h).elim
    | cons d ds =>
      rw [List.flatMap_cons, List.flatMap_cons]
      rcases List.cons_lt_cons_iff.1 h with hcd | ⟨rfl, htail⟩
      · exact utf8_append_lt hcd _ _
      · exact append_lt_append_left _ (ih htail)

/-- The bytes of a string. -/
def utf8 (s : String) : List UInt8 := s.toByteArray.data.toList

theorem utf8_eq (s : String) : utf8 s = s.toList.flatMap String.utf8EncodeChar := by
  rw [utf8, ← String.utf8Encode_toList, List.utf8Encode, List.data_toByteArray]

/-- Strings are in the order of their encodings. -/
theorem string_lt_iff {s t : String} : s < t ↔ utf8 s < utf8 t := by
  rw [utf8_eq, utf8_eq, String.lt_iff_toList_lt]
  refine ⟨utf8_flatMap_lt, fun h => ?_⟩
  by_contra hnot
  rcases (not_lt.1 hnot).lt_or_eq with hlt | heq
  · exact List.lt_asymm h (utf8_flatMap_lt hlt)
  · rw [heq] at h
    exact List.lt_irrefl _ h

end Labyrinth
