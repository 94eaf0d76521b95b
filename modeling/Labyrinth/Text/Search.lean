/-!
# Search in texts

The first place at which a text contains another one.

## Main results

* `Text.find?_eq_some`: at the place that is found, the text goes on with the one looked for.
-/

namespace Labyrinth.Text

/-- The first position from which on a text begins with another one, where the text itself
begins at position `i`. -/
def findFrom? (needle : List Char) (i : Nat) : List Char → Option Nat
  | [] => if needle.isEmpty then some i else none
  | c :: cs => if needle.isPrefixOf (c :: cs) then some i else findFrom? needle (i + 1) cs

/-- The first position from which on a text begins with another one. -/
def find? (needle text : List Char) : Option Nat := findFrom? needle 0 text

theorem findFrom?_eq_some {needle text : List Char} {i k : Nat}
    (h : findFrom? needle i text = some k) : i ≤ k ∧ needle <+: text.drop (k - i) := by
  induction text generalizing i with
  | nil => simp_all [findFrom?]
  | cons c cs ih =>
    simp only [findFrom?] at h
    split at h
    · next hp =>
      cases h
      simpa using hp
    · obtain ⟨hle, hp⟩ := ih h
      have hk : k - i = k - (i + 1) + 1 := by omega
      exact ⟨by omega, by rw [hk]; exact hp⟩

theorem find?_eq_some {needle text : List Char} {i : Nat} (h : find? needle text = some i) :
    needle <+: text.drop i :=
  (findFrom?_eq_some h).2

end Labyrinth.Text
