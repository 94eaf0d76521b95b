import Labyrinth.Language.SyntaxError
import Labyrinth.Text.Alphabetic
import Labyrinth.Text.Numeric

/-!
# Reading tokens

A **reader** is the part of the source that has not been read together with its position. This
module reads the tokens that both dialects share: names, integers, texts in quotes, and the
operators of a given list.

## Main results

* `Reader.token_length_lt`: reading a token uses up at least one character.
* `readText_length_lt`: so does reading the rest of a text in quotes.
-/

namespace Labyrinth

/-- The rest of a source and its position. -/
structure Reader where
  rest : List Char
  position : Position

namespace Reader

/-- The reader at the beginning of a source. -/
def ofString (source : String) : Reader := ⟨source.toList, Position.start⟩

/-- Passes over `n` characters. -/
def skip (r : Reader) (n : Nat) : Reader :=
  ⟨r.rest.drop n, r.position.after (r.rest.take n)⟩

/-- Reads characters as long as they satisfy a condition. -/
def takeWhile (r : Reader) (p : Char → Bool) : List Char × Reader :=
  (r.rest.takeWhile p, ⟨r.rest.dropWhile p, r.position.after (r.rest.takeWhile p)⟩)

/-- Reads up to the end of the line. Carriage returns do not belong to the text. -/
def line (r : Reader) : String × Reader :=
  let (text, r) := r.takeWhile (· != '\n')
  (String.ofList (text.filter (· != '\r')), r)

theorem length_skip (r : Reader) (n : Nat) : (r.skip n).rest.length = r.rest.length - n := by
  simp [skip]

theorem length_dropWhile_le (p : Char → Bool) (cs : List Char) :
    (cs.dropWhile p).length ≤ cs.length := (List.dropWhile_sublist p).length_le

theorem length_takeWhile_le (r : Reader) (p : Char → Bool) :
    (r.takeWhile p).2.rest.length ≤ r.rest.length := length_dropWhile_le p r.rest

theorem length_line_le (r : Reader) : r.line.2.rest.length ≤ r.rest.length :=
  length_takeWhile_le r _

end Reader

/-- Whether a character can begin a name. -/
def isNameStart (c : Char) : Bool := Text.isAlphabetic c || c == '_' || c == '$'

/-- Whether a character can go on in a name. -/
def isNamePart (c : Char) : Bool :=
  Text.isAlphabetic c || Text.isNumeric c || c == '_' || c == '$'

theorem isNamePart_of_isNameStart {c : Char} (h : isNameStart c = true) :
    isNamePart c = true := by
  simp only [isNameStart, Bool.or_eq_true] at h
  simp only [isNamePart, Bool.or_eq_true]
  grind

/-- Whether a character can stand in an integer. Underscores only set digits apart. -/
def isIntegerPart (c : Char) : Bool := c.isDigit || c == '_'

/-- The number written by decimal digits. -/
def digitsValue (digits : List Char) : Nat :=
  digits.foldl (fun n c => 10 * n + (c.toNat - '0'.toNat)) 0

/-- The character written by a backslash and the given one. -/
def escaped? : Char → Option Char
  | 'n' => some '\n'
  | 't' => some '\t'
  | 'r' => some '\r'
  | '0' => some '\x00'
  | '\\' => some '\\'
  | '\'' => some '\''
  | '"' => some '"'
  | _ => none

/-- Reads the rest of a text up to its closing quote. An opening quote at `start` that is never
closed on its line is reported there, an unknown escape behind the escaped character. -/
def readText (quote : Char) (start : Position) :
    List Char → Position → Except SyntaxError (List Char × Reader)
  | [], _ => .error ⟨start, .unterminatedString⟩
  | '\n' :: _, _ => .error ⟨start, .unterminatedString⟩
  | c :: rest, p =>
    if c = quote then
      .ok ([], ⟨rest, p.next c⟩)
    else if c = '\\' then
      match rest with
      | [] => .error ⟨start, .unterminatedString⟩
      | e :: rest =>
        match escaped? e with
        | none => .error ⟨(p.next c).next e, .unknownEscape e⟩
        | some x => do
          let (text, r) ← readText quote start rest ((p.next c).next e)
          return (x :: text, r)
    else do
      let (text, r) ← readText quote start rest (p.next c)
      return (c :: text, r)

theorem readText_length_lt {quote : Char} {start p : Position} {cs text : List Char} {r : Reader}
    (h : readText quote start cs p = .ok (text, r)) : r.rest.length < cs.length := by
  fun_induction readText quote start cs p generalizing text r with
  | case1 => simp at h
  | case2 => simp at h
  | case3 => simp only [Except.ok.injEq, Prod.mk.injEq] at h; simp [← h.2]
  | case4 => simp at h
  | case5 => simp at h
  | case6 p e rest x _ _ _ ih =>
    cases hr : readText quote start rest ((p.next '\\').next e) with
    | error _ => simp [hr, bind, Except.bind] at h
    | ok v =>
      simp only [hr, bind, Except.bind, pure, Except.pure, Except.ok.injEq, Prod.mk.injEq] at h
      have := ih hr
      simp only [List.length_cons, ← h.2]
      omega
  | case7 c rest p _ _ _ ih =>
    cases hr : readText quote start rest (p.next c) with
    | error _ => simp [hr, bind, Except.bind] at h
    | ok v =>
      simp only [hr, bind, Except.bind, pure, Except.pure, Except.ok.injEq, Prod.mk.injEq] at h
      have := ih hr
      simp only [List.length_cons, ← h.2]
      omega

namespace Reader

/-- Reads an integer whose first digit comes next. -/
def integer (r : Reader) : Except SyntaxError (TokenKind × Reader) :=
  let (chars, after) := r.takeWhile isIntegerPart
  let value := digitsValue (chars.filter Char.isDigit)
  if 9223372036854775807 < value then
    .error ⟨r.position, .integerTooLarge⟩
  else
    match after.rest with
    | '.' :: c :: _ =>
      if c.isDigit then .error ⟨r.position, .notAnInteger⟩
      else .ok (.int (Int64.ofNat value), after)
    | c :: _ =>
      if Text.isAlphabetic c then .error ⟨r.position, .notAnInteger⟩
      else .ok (.int (Int64.ofNat value), after)
    | [] => .ok (.int (Int64.ofNat value), after)

/-- Reads the first of the given operators with which the source goes on. -/
def operator (operators : List String) (r : Reader) : Except SyntaxError (TokenKind × Reader) :=
  match operators.find? fun op => op.toList.isPrefixOf r.rest with
  | some op => .ok (.op op, r.skip op.length)
  | none =>
    match r.rest with
    | c :: _ => .error ⟨r.position, .unexpectedCharacter c⟩
    | [] => .error ⟨r.position, .expectedExpression .eof⟩

/-- Reads the token that comes next, where neither a blank nor a comment does. -/
def token (operators : List String) (r : Reader) : Except SyntaxError (TokenKind × Reader) :=
  match r.rest with
  | c :: rest =>
    if c.isDigit then
      r.integer
    else if c = '"' ∨ c = '\'' then do
      let (text, r) ← readText c r.position rest (r.position.next c)
      return (.str (String.ofList text), r)
    else if isNameStart c then
      let (text, r) := r.takeWhile isNamePart
      .ok (.name (String.ofList text), r)
    else
      r.operator operators
  | [] => r.operator operators

theorem length_takeWhile_lt {r : Reader} {p : Char → Bool} {c : Char} {rest : List Char}
    (hr : r.rest = c :: rest) (hp : p c = true) :
    (r.takeWhile p).2.rest.length < r.rest.length := by
  have := length_dropWhile_le p rest
  simp only [takeWhile, hr, List.dropWhile_cons, hp, if_true, List.length_cons]
  omega

theorem integer_length_lt {r r' : Reader} {kind : TokenKind} {c : Char} {rest : List Char}
    (hr : r.rest = c :: rest) (hc : c.isDigit = true) (h : r.integer = .ok (kind, r')) :
    r'.rest.length < r.rest.length := by
  have hlt := length_takeWhile_lt (p := isIntegerPart) hr (by simp [isIntegerPart, hc])
  have heq : r' = (r.takeWhile isIntegerPart).2 := by
    unfold integer at h
    grind
  rw [heq]
  exact hlt

theorem operator_length_lt {operators : List String} {r r' : Reader} {kind : TokenKind}
    (hops : ∀ op ∈ operators, 0 < op.length) (h : r.operator operators = .ok (kind, r')) :
    r'.rest.length < r.rest.length := by
  unfold operator at h
  split at h
  · rename_i op hfind
    have hmem := List.mem_of_find?_eq_some hfind
    have hpre := List.find?_some hfind
    simp only [Except.ok.injEq, Prod.mk.injEq] at h
    have hle := (List.isPrefixOf_iff_prefix.1 hpre).length_le
    have hpos := hops op hmem
    rw [← h.2, length_skip]
    simp only [String.length_toList] at hle
    omega
  · split at h <;> simp at h

/-- Reading a token uses up at least one character. -/
theorem token_length_lt {operators : List String} {r r' : Reader} {kind : TokenKind}
    (hops : ∀ op ∈ operators, 0 < op.length) (h : r.token operators = .ok (kind, r')) :
    r'.rest.length < r.rest.length := by
  unfold token at h
  split at h
  · rename_i c rest hr
    split at h
    · rename_i hc
      exact integer_length_lt hr hc h
    · split at h
      · cases ht : readText c r.position rest (r.position.next c) with
        | error _ => simp [ht, bind, Except.bind] at h
        | ok v =>
          simp only [ht, bind, Except.bind, pure, Except.pure, Except.ok.injEq,
            Prod.mk.injEq] at h
          have := readText_length_lt ht
          rw [hr, ← h.2, List.length_cons]
          omega
      · split at h
        · rename_i hc
          simp only [Except.ok.injEq, Prod.mk.injEq] at h
          rw [← h.2]
          exact length_takeWhile_lt hr (isNamePart_of_isNameStart hc)
        · exact operator_length_lt hops h
  · exact operator_length_lt hops h

end Reader

end Labyrinth
