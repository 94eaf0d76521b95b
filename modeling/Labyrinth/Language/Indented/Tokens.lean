import Labyrinth.Language.Reader

/-!
# Tokens of the indented dialect

The indented dialect is cut into tokens **line by line**. At the start of a line its width of
indentation is compared with the blocks that are open: a wider line opens a block, a narrower
one closes blocks until its width is met again. Blank lines and lines that hold a comment only
take no part in this, and neither do the line breaks inside brackets or behind a backslash.

## Main results

* `tokens`: the tokens of a source, ending with the single token `eof`.
* `align_cases`: a line opens a single block, or it closes blocks.
* `align_indents`: after a line has been aligned, the innermost open block has its width.
-/

namespace Labyrinth.Indented

/-- The operators, those that begin with another one before it. -/
def operators : List String := [
  "//=", "==", "!=", "<=", ">=", "+=", "-=", "*=", "/=", "%=", "//", "(", ")", "[", "]", "\x7b",
  "\x7d", ",", ":", ".", "=", "<", ">", "+", "-", "*", "/", "%"]

theorem operators_length_pos : ∀ op ∈ operators, 0 < op.length := by decide

/-- Whether a character only sets tokens apart. -/
def isSpacing (c : Char) : Bool := c == ' ' || c == '\t' || c == '\r'

/-- How many columns a character adds to the indentation. -/
def columns : Char → Nat
  | ' ' => 1
  | '\t' => 4
  | _ => 0

/-- The width of an indentation. -/
def width (spacing : List Char) : Nat := spacing.foldl (fun w c => w + columns c) 0

/-- Where in the source reading goes on. -/
inductive Place
  /-- At the start of a line that is not inside brackets. -/
  | lineStart
  /-- Inside a line, `depth` brackets deep; `pending` tells whether the line has to be ended. -/
  | inLine (depth : Nat) (pending : Bool)

/-- Orders the places at one and the same character. -/
def Place.rank : Place → Nat
  | lineStart => 1
  | inLine _ _ => 0

/-- The width of the innermost open block. Outside all blocks it is zero. -/
def innermost (indents : List Nat) : Nat := indents.headD 0

/-- The layout tokens in front of a line of width `w`, and the blocks that are open then. -/
def align (w : Nat) (indents : List Nat) (p : Position) :
    Except SyntaxError (List Token × List Nat) :=
  if innermost indents < w then
    .ok ([⟨.indent, p⟩], w :: indents)
  else
    let remaining := indents.dropWhile (w < ·)
    if innermost remaining = w then
      .ok (List.replicate (indents.length - remaining.length) ⟨.dedent, p⟩, remaining)
    else
      .error ⟨p, .badDedent⟩

section Align

variable {w : Nat} {indents indents' : List Nat} {p : Position} {layout : List Token}

/-- A line opens a single block, or it closes the innermost ones up to one of its own width. -/
theorem align_cases (h : align w indents p = .ok (layout, indents')) :
    (innermost indents < w ∧ layout = [⟨.indent, p⟩] ∧ indents' = w :: indents) ∨
      ∃ closed, indents = closed ++ indents' ∧
        layout = List.replicate closed.length ⟨.dedent, p⟩ ∧ innermost indents' = w := by
  unfold align at h
  split at h
  · next hlt =>
    cases h
    exact .inl ⟨hlt, rfl, rfl⟩
  · dsimp only at h
    split at h
    · next hsame =>
      cases h
      have hindents : indents.takeWhile (w < ·) ++ indents.dropWhile (w < ·) = indents :=
        List.takeWhile_append_dropWhile
      refine .inr ⟨indents.takeWhile (w < ·), hindents.symm, ?_, hsame⟩
      have hlength := congrArg List.length hindents
      rw [List.length_append] at hlength
      rw [← hlength, Nat.add_sub_cancel]
    · cases h

theorem align_indents (h : align w indents p = .ok (layout, indents')) :
    innermost indents' = w := by
  obtain ⟨-, -, rfl⟩ | ⟨closed, -, -, hsame⟩ := align_cases h
  · rfl
  · exact hsame

end Align

/-- The token that ends a line, where there is something to end. -/
def lineEnd (pending : Bool) (p : Position) : List Token :=
  if pending then [⟨.newline, p⟩] else []

/-- The tokens at the end of the source. -/
def finish (indents : List Nat) (pending : Bool) (p : Position) : List Token :=
  lineEnd pending p ++ List.replicate indents.length ⟨.dedent, p⟩ ++ [⟨.eof, p⟩]

/-- How many brackets are open behind a token. A bracket that closes nothing is passed over. -/
def depthAfter (kind : TokenKind) (depth : Nat) : Nat :=
  match kind with
  | .op "(" => depth + 1
  | .op "[" => depth + 1
  | .op "\x7b" => depth + 1
  | .op ")" => depth - 1
  | .op "]" => depth - 1
  | .op "\x7d" => depth - 1
  | _ => depth

/-- The first character of a line that is no indentation. -/
def lineBody (r : Reader) : Reader := (r.takeWhile isSpacing).2

theorem lineBody_length_le (r : Reader) : (lineBody r).rest.length ≤ r.rest.length :=
  r.length_takeWhile_le isSpacing

/-- The tokens of the rest of a source. -/
def scan (place : Place) (indents : List Nat) (r : Reader) : Except SyntaxError (List Token) :=
  match place with
  | .lineStart =>
    match _h : (lineBody r).rest with
    | [] => .ok (finish indents false (lineBody r).position)
    | '\n' :: _ => scan .lineStart indents ((lineBody r).skip 1)
    | '#' :: _ => do
      let rest ← scan .lineStart indents (((lineBody r).skip 1).line.2.skip 1)
      return ⟨.comment ((lineBody r).skip 1).line.1, (lineBody r).position⟩ :: rest
    | _ => do
      let aligned ← align (width (r.rest.takeWhile isSpacing)) indents (lineBody r).position
      let rest ← scan (.inLine 0 false) aligned.2 (lineBody r)
      return aligned.1 ++ rest
  | .inLine depth pending =>
    match _h : r.rest with
    | [] => .ok (finish indents pending r.position)
    | '\n' :: _ =>
      if depth = 0 then do
        let rest ← scan .lineStart indents (r.skip 1)
        return lineEnd pending r.position ++ rest
      else
        scan (.inLine depth pending) indents (r.skip 1)
    | '#' :: _ => scan (.inLine depth pending) indents r.line.2
    | '\\' :: '\n' :: _ => scan (.inLine depth pending) indents (r.skip 2)
    | c :: _ =>
      if isSpacing c then
        scan (.inLine depth pending) indents (r.skip 1)
      else
        match _ht : r.token operators with
        | .error e => .error e
        | .ok (kind, after) => do
          let rest ← scan (.inLine (depthAfter kind depth) true) indents after
          return ⟨kind, r.position⟩ :: rest
termination_by (r.rest.length, place.rank)
decreasing_by
  all_goals have hle := lineBody_length_le r
  · have hlen := congrArg List.length _h
    apply Prod.Lex.left
    simp only [List.length_cons, Reader.length_skip] at hlen hle ⊢
    omega
  · have hlen := congrArg List.length _h
    have hline := Reader.length_line_le ((lineBody r).skip 1)
    apply Prod.Lex.left
    simp only [List.length_cons, Reader.length_skip] at hlen hle hline ⊢
    omega
  · rcases Nat.lt_or_eq_of_le hle with hlt | heq
    · exact Prod.Lex.left _ _ hlt
    · rw [heq]
      exact Prod.Lex.right _ Nat.zero_lt_one
  · have hlen := congrArg List.length _h
    apply Prod.Lex.left
    simp only [List.length_cons, Reader.length_skip] at hlen ⊢
    omega
  · have hlen := congrArg List.length _h
    apply Prod.Lex.left
    simp only [List.length_cons, Reader.length_skip] at hlen ⊢
    omega
  · exact Prod.Lex.left _ _ (Reader.length_takeWhile_lt _h rfl)
  · have hlen := congrArg List.length _h
    apply Prod.Lex.left
    simp only [List.length_cons, Reader.length_skip] at hlen ⊢
    omega
  · have hlen := congrArg List.length _h
    apply Prod.Lex.left
    simp only [List.length_cons, Reader.length_skip] at hlen ⊢
    omega
  · exact Prod.Lex.left _ _ (Reader.token_length_lt operators_length_pos _ht)

/-- The tokens of a source. -/
def tokens (source : String) : Except SyntaxError (List Token) :=
  scan .lineStart [] (Reader.ofString source)

end Labyrinth.Indented
