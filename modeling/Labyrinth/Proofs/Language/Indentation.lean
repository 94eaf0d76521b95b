import Labyrinth.Proofs.Language.LogicalLines
import Mathlib.Order.Monotone.Basic

/-!
# Widths of indentation

The indented dialect compares the widths of its lines, and it does nothing else with them. So a
source may be indented anew: any strictly monotone function of the widths that keeps zero leaves the
tokens as they are, and the error where there is one.

## Main results

* `alignKinds_map`: blocks are opened and closed alike.
* `layOut_map`: lines are laid out alike.
* `outcome_reindent`: a source has the outcome it has with other widths.
-/

namespace Labyrinth.Indented

variable {f : Nat → Nat}

/-- The line with another width. -/
def reindentLine (f : Nat → Nat) (line : List Char) : List Char :=
  List.replicate (f (width (line.takeWhile isSpacing))) ' ' ++ line.dropWhile isSpacing

/-- The source with other widths of its logical lines. -/
def reindent (f : Nat → Nat) (source : String) : String :=
  ofLines ((logicalLines source.toList).map (reindentLine f))

/-! ### Lines -/

theorem width_replicate (n : Nat) : width (List.replicate n ' ') = n := by
  have hsum (n w : Nat) :
      (List.replicate n ' ').foldl (fun w c => w + columns c) w = w + n := by
    induction n generalizing w with
    | zero => rfl
    | succ n ih =>
      rw [List.replicate_succ, List.foldl_cons, ih]
      exact Nat.add_right_comm w 1 n
  rw [width, hsum, Nat.zero_add]

/-- What a line begins with behind its indentation is no spacing. -/
theorem isSpacing_head?_dropWhile (line : List Char) :
    ∀ c ∈ (line.dropWhile isSpacing).head?, isSpacing c = false := by
  intro c hc
  have hhead := List.head?_dropWhile_not isSpacing line
  rw [Option.mem_def.1 hc] at hhead
  simpa using hhead

theorem isSpacing_replicate {n : Nat} : ∀ c ∈ List.replicate n ' ', isSpacing c = true :=
  fun _ hc => List.eq_of_mem_replicate hc ▸ rfl

theorem dropWhile_reindentLine (line : List Char) :
    (reindentLine f line).dropWhile isSpacing = line.dropWhile isSpacing := by
  have hdrop := dropWhile_append_of_head? (isSpacing_head?_dropWhile line) []
  rw [List.dropWhile_nil, List.nil_append] at hdrop
  rw [reindentLine, List.dropWhile_append_of_pos isSpacing_replicate, hdrop]

theorem width_reindentLine (line : List Char) :
    width ((reindentLine f line).takeWhile isSpacing) = f (width (line.takeWhile isSpacing)) := by
  rw [reindentLine, takeWhile_append_of_head? (isSpacing_head?_dropWhile line),
    List.takeWhile_replicate,
    if_pos (show isSpacing ' ' = true from rfl), width_replicate]

theorem lineRest_reindentLine (line tail : List Char) :
    lineRest 0 (reindentLine f line ++ tail) = lineRest 0 (line ++ tail) := by
  rw [← lineRest_dropWhile, dropWhile_reindentLine, lineRest_dropWhile]

theorem AreLines.map_reindentLine {lines : List (List Char)} (h : AreLines lines) :
    AreLines (lines.map (reindentLine f)) := by
  induction h with
  | @last line h =>
    refine .last ?_
    have hrest := lineRest_reindentLine (f := f) line []
    rw [List.append_nil, List.append_nil] at hrest
    exact hrest.trans h
  | @cons line lines h _ ih => exact .cons ((lineRest_reindentLine line ['\n']).trans h) ih

/-! ### Layout -/

section Widths

variable (hf : StrictMono f) (hzero : f 0 = 0)

include hzero in
theorem innermost_map (indents : List Nat) : innermost (indents.map f) = f (innermost indents) := by
  cases indents with
  | nil => exact hzero.symm
  | cons w indents => rfl

include hf hzero

/-- Blocks are opened and closed by comparisons. -/
theorem alignKinds_map (w : Nat) (indents : List Nat) :
    alignKinds (f w) (indents.map f) =
      (alignKinds w indents).map fun aligned => (aligned.1, aligned.2.map f) := by
  have hremaining : (indents.map f).dropWhile (f w < ·) = (indents.dropWhile (w < ·)).map f := by
    rw [List.dropWhile_map]
    congr 2
    funext v
    simp [hf.lt_iff_lt]
  unfold alignKinds
  dsimp only
  rw [hremaining, innermost_map hzero, innermost_map hzero, List.length_map, List.length_map]
  simp only [hf.lt_iff_lt, hf.injective.eq_iff]
  split
  · rfl
  · split <;> rfl

theorem layLine_reindentLine {behind behind' : List Nat → Except SyntaxCause (List TokenKind)}
    (hbehind : ∀ indents, behind' (indents.map f) = behind indents) (indents : List Nat)
    (line ending : List Char) :
    layLine (indents.map f) (reindentLine f line) ending behind' =
      layLine indents line ending behind := by
  unfold layLine
  rw [dropWhile_reindentLine, width_reindentLine, alignKinds_map hf hzero]
  split
  · exact hbehind indents
  · rw [hbehind]
  · cases alignKinds (width (line.takeWhile isSpacing)) indents with
    | error cause => rfl
    | ok aligned =>
      change (do
        let kinds ← lineKinds 0 false (line.dropWhile isSpacing ++ ending)
        (behind' (aligned.2.map f)).map (aligned.1 ++ kinds ++ ·)) = _
      rw [hbehind]
      rfl

/-- Of the widths of the lines no more than their order matters. -/
theorem layOut_map (indents : List Nat) (lines : List (List Char)) :
    layOut (indents.map f) (lines.map (reindentLine f)) = layOut indents lines := by
  induction lines generalizing indents with
  | nil =>
    rw [List.map_nil, layOut, layOut, finishKinds, finishKinds, List.length_map]
  | cons line lines ih =>
    rw [List.map_cons, layOut, layOut, List.isEmpty_map]
    exact layLine_reindentLine hf hzero ih indents line _

/-- **Indentation.** With other widths in the same order, the lines of a source have the tokens they
had, and where they do not have any, the error is the one it was. -/
theorem outcome_reindent (source : String) :
    outcome (tokens (reindent f source)) = outcome (tokens source) := by
  have hlines := (areLines_logicalLines source.toList).1
  have hlayout := layOut_map hf hzero [] (logicalLines source.toList)
  conv_rhs => rw [← ofLines_logicalLines source]
  rw [reindent, outcome_ofLines hlines.map_reindentLine, outcome_ofLines hlines]
  exact hlayout

end Widths

theorem strictMono_double : StrictMono (2 * ·) :=
  fun _ _ h => Nat.mul_lt_mul_of_pos_left h Nat.two_pos

/-- The lines behind a tab, and the one inside brackets, which does not count. -/
theorem outcome_reindent_double :
    reindent (2 * ·) "while 1:\n\tf(\n 1)\n\r  # c\n" = "while 1:\n        f(\n 1)\n    # c\n" ∧
    outcome (tokens (reindent (2 * ·) "while 1:\n\tf(\n 1)\n\r  # c\n")) =
      outcome (tokens "while 1:\n\tf(\n 1)\n\r  # c\n") :=
  ⟨String.toList_inj.1 (by rw [reindent, ofLines, String.toList_ofList]; cbv),
    outcome_reindent strictMono_double rfl _⟩

end Labyrinth.Indented
