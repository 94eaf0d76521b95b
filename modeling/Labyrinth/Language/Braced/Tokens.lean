import Labyrinth.Language.Reader

/-!
# Tokens of the braced dialect

In the braced dialect blanks and line breaks only set tokens apart, and **comments** are
dropped: those that reach to the end of the line, and those between two marks.

## Main results

* `closeComment_length_le`: what follows a comment is a part of the source.
* `tokens`: the tokens of a source, ending with the single token `eof`.
-/

namespace Labyrinth.Braced

/-- The operators, those that begin with another one before it. -/
def operators : List String := [
  "===", "!==", "==", "!=", "<=", ">=", "&&", "||", "+=", "-=", "*=", "/=", "%=", "(", ")", "[",
  "]", "\x7b", "\x7d", ",", ";", ":", ".", "=", "<", ">", "+", "-", "*", "/", "%", "!"]

theorem operators_length_pos : ∀ op ∈ operators, 0 < op.length := by decide

/-- Whether a character only sets tokens apart. -/
def isSpacing (c : Char) : Bool := c == ' ' || c == '\t' || c == '\r' || c == '\n'

/-- What follows the mark that closes a comment, if there is one. -/
def closeComment : List Char → Position → Option Reader
  | '*' :: '/' :: rest, p => some ⟨rest, (p.next '*').next '/'⟩
  | c :: rest, p => closeComment rest (p.next c)
  | [], _ => none

theorem closeComment_length_le {cs : List Char} {p : Position} {r : Reader}
    (h : closeComment cs p = some r) : r.rest.length ≤ cs.length := by
  fun_induction closeComment cs p with
  | case1 => simp only [Option.some.injEq] at h; simp only [← h, List.length_cons]; omega
  | case2 c rest p _ ih => have := ih h; simp only [List.length_cons]; omega
  | case3 => simp at h

/-- The tokens of the rest of a source. -/
def scan (r : Reader) : Except SyntaxError (List Token) :=
  match _h : r.rest with
  | [] => .ok [⟨.eof, r.position⟩]
  | '/' :: '/' :: _ => scan (r.skip 2).line.2
  | '/' :: '*' :: _ =>
    match _hc : closeComment (r.skip 2).rest (r.skip 2).position with
    | none => .error ⟨r.position, .unterminatedComment⟩
    | some after => scan after
  | c :: _ =>
    if isSpacing c then
      scan (r.skip 1)
    else
      match _ht : r.token operators with
      | .error e => .error e
      | .ok (kind, after) => do
        let rest ← scan after
        return ⟨kind, r.position⟩ :: rest
termination_by r.rest.length
decreasing_by
  · have hlen := congrArg List.length _h
    have hline := Reader.length_line_le (r.skip 2)
    simp only [List.length_cons, Reader.length_skip] at hlen hline ⊢
    omega
  · have hlen := congrArg List.length _h
    have hclose := closeComment_length_le _hc
    simp only [List.length_cons, Reader.length_skip] at hlen hclose ⊢
    omega
  · have hlen := congrArg List.length _h
    simp only [List.length_cons, Reader.length_skip] at hlen ⊢
    omega
  · exact Reader.token_length_lt operators_length_pos _ht

/-- The tokens of a source. -/
def tokens (source : String) : Except SyntaxError (List Token) :=
  scan (Reader.ofString source)

end Labyrinth.Braced
