import Labyrinth.Console.Commands
import Labyrinth.Proofs.Language.Spelling

/-!
# Level files

A level is saved in digits, on a line of its own. Blanks around the digits do not count when it is
read, so what has been saved is read back.

## Main results

* `Text.unsigned?_repr`: a number in digits is read as this number.
* `Console.readLevel_levelText`: a level that has been saved is read back.
-/

namespace Labyrinth

namespace Text

/-! ### Digits -/

theorem digit?_of_isDigit {c : Char} (h : c.isDigit = true) :
    digit? 10 c = some (c.toNat - '0'.toNat) := by
  obtain ⟨hlow, hhigh⟩ := Char.isDigit_iff_toNat.1 h
  have hrange : ('0' ≤ c && c ≤ '9') = true := by
    simp only [Bool.and_eq_true, decide_eq_true_eq, Char.le_def, UInt32.le_iff_toNat_le]
    exact ⟨hlow, hhigh⟩
  have hnine : '9'.toNat = 57 := rfl
  have hbase : c.toNat - 48 < 10 := by omega
  simp [digit?, hrange, Option.filter, hbase]

/-- Digits behind a number are read to their end. -/
theorem digitsFrom?_of_isDigit {cs : List Char} (h : ∀ c ∈ cs, c.isDigit = true) (value : Nat) :
    digitsFrom? 10 value cs = some (Nat.ofDigitChars 10 cs value) := by
  induction cs generalizing value with
  | nil => rfl
  | cons c cs ih =>
    obtain ⟨hc, hcs⟩ := List.forall_mem_cons.1 h
    rw [digitsFrom?, digit?_of_isDigit hc, Nat.ofDigitChars_cons]
    exact ih hcs _

theorem unsigned?_repr {n bound : Nat} (h : n < bound) :
    unsigned? bound n.repr.toList = some n := by
  obtain ⟨c, cs, hcs, hc⟩ := Braced.exists_digit n
  have hvalue : Nat.ofDigitChars 10 (c :: cs) 0 = n := by
    rw [← hcs, Nat.toList_repr]
    exact Nat.ofDigitChars_ten_toDigits
  have hdigits : digits? 10 (c :: cs) = some n := by
    rw [digits?, List.isEmpty_cons, if_neg nofun, digitsFrom?_of_isDigit, hvalue]
    exact fun d hd => Braced.isDigit_of_mem_repr (hcs ▸ hd)
  rw [hcs]
  unfold unsigned?
  split
  · next heq =>
    obtain ⟨rfl, -⟩ := List.cons.inj heq
    cases hc
  · rw [hdigits, Option.filter_some, if_pos (decide_eq_true h)]

/-! ### Blanks -/

theorem isBlank_eq_false_of_isDigit {c : Char} (h : c.isDigit = true) : isBlank c = false := by
  obtain ⟨hlow, hhigh⟩ := Char.isDigit_iff_toNat.1 h
  have hzero : '0'.toNat = 48 := rfl
  have hnine : '9'.toNat = 57 := rfl
  simp only [isBlank, inRanges, blankRanges, List.any_cons, List.any_nil, Bool.or_eq_false_iff,
    Bool.and_eq_false_iff, decide_eq_false_iff_not, and_true]
  omega

/-- Blanks behind a text that has none are removed. -/
theorem trim_append {cs blanks : List Char} (hcs : ∀ c ∈ cs, isBlank c = false)
    (hblanks : ∀ c ∈ blanks, isBlank c = true) : trim (cs ++ blanks) = cs := by
  have hkept {ds : List Char} (hds : ∀ c ∈ ds, isBlank c = false) : ds.dropWhile isBlank = ds :=
    List.dropWhile_eq_self_iff.2 fun hl => Bool.not_eq_true _ ▸ hds _ (List.getElem_mem hl)
  have hgone {ds : List Char} (hds : ∀ c ∈ ds, isBlank c = true) : ds.dropWhile isBlank = [] :=
    List.dropWhile_eq_nil_iff.2 hds
  cases cs with
  | nil => rw [List.nil_append, trim, hgone hblanks]; rfl
  | cons c cs =>
    have hfront : (c :: cs ++ blanks).dropWhile isBlank = c :: cs ++ blanks := by
      rw [List.cons_append, List.dropWhile_cons_of_neg]
      rw [hcs c List.mem_cons_self]
      exact nofun
    have hback : ∀ d ∈ (c :: cs).reverse, isBlank d = false :=
      fun d hd => hcs d (List.mem_reverse.1 hd)
    rw [trim, hfront, List.reverse_append, List.dropWhile_append_of_pos, hkept hback,
      List.reverse_reverse]
    exact fun d hd => hblanks d (List.mem_reverse.1 hd)

end Text

namespace Console

/-- A level that has been saved is read back. -/
theorem readLevel_levelText (level : UInt32) : readLevel (levelText level) = some level := by
  have htext : (levelText level).toList = level.toNat.repr.toList ++ ['\n'] := by
    rw [levelText, String.toList_append]
    rfl
  rw [readLevel, htext, Text.trim_append, Text.unsigned?_repr level.toNat_lt]
  · simp
  · exact fun c hc => Text.isBlank_eq_false_of_isDigit (Braced.isDigit_of_mem_repr hc)
  · simp
    decide

end Console

end Labyrinth
