/-!
# Tokens

A **token** is a piece of source text with the position of its first character. The layout of
indented programs is part of the sequence: `newline` ends a logical line, `indent` and `dedent`
open and close a block.

## Main results

* `Position.after_append`: positions are counted piece by piece.
-/

namespace Labyrinth

/-- A line and a column, both counted from one. -/
structure Position where
  line : Nat
  column : Nat
  deriving DecidableEq, Repr

namespace Position

/-- The position of the first character. -/
def start : Position := ⟨1, 1⟩

/-- The position behind a character. -/
def next (p : Position) (c : Char) : Position :=
  if c = '\n' then ⟨p.line + 1, 1⟩ else ⟨p.line, p.column + 1⟩

/-- The position behind a piece of text. -/
def after (p : Position) (cs : List Char) : Position := cs.foldl next p

theorem after_append (p : Position) (xs ys : List Char) :
    p.after (xs ++ ys) = (p.after xs).after ys := by
  simp [after]

end Position

/-- What a token stands for. -/
inductive TokenKind
  | name (text : String)
  | int (value : Int64)
  | str (text : String)
  /-- An operator or a bracket. -/
  | op (spelling : String)
  /-- A comment on a line of its own, without its marker. -/
  | comment (text : String)
  | newline
  | indent
  | dedent
  /-- The end of the source. -/
  | eof
  deriving DecidableEq, Repr

/-- How a token is described in messages. -/
def TokenKind.describe : TokenKind → String
  | name text => s!"'{text}'"
  | int value => s!"'{value}'"
  | str _ => "a string"
  | op spelling => s!"'{spelling}'"
  | comment _ => "a comment"
  | newline => "end of line"
  | indent => "an indent"
  | dedent => "a dedent"
  | eof => "end of input"

/-- A piece of source text. -/
structure Token where
  kind : TokenKind
  position : Position
  deriving DecidableEq, Repr

end Labyrinth
