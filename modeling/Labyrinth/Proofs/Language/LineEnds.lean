import Labyrinth.Proofs.Language.Spelling
import Labyrinth.Proofs.Outcome

/-!
# Tokens and the ends of lines

Which token comes next depends on the characters of a reader, not on its position. It does not even
depend on all of them: no token reaches beyond the end of its line, and it makes no difference to a
token whether its line ends with the source, with a line feed, or with a carriage return and a line
feed.

## Main results

* `unplaced_token`: a token depends on the characters that come next.
* `EndsLine.nextToken_append`: whether there is a token does not depend on what follows the line.
* `nextToken_feed`: nor does an error depend on what stands on other lines.
-/

namespace Labyrinth

open Labyrinth.Braced

/-! ### Results without positions -/

/-- A result with the characters that are left, or the cause of an error. -/
def unplaced {α : Type} : Except SyntaxError (α × Reader) → Except SyntaxCause (α × List Char)
  | .error e => .error e.cause
  | .ok (a, r) => .ok (a, r.rest)

/-- The token that comes next and the characters behind it. -/
def nextToken (operators : List String) (cs : List Char) :
    Except SyntaxCause (TokenKind × List Char) :=
  unplaced (Reader.token operators ⟨cs, Position.start⟩)

theorem unplaced_bind {α β : Type} (x : Except SyntaxError (α × Reader)) (f : α → β) :
    unplaced (do
      let (a, r) ← x
      return (f a, r)) = (do
      let (a, cs) ← unplaced x
      return (f a, cs)) := by
  cases x with
  | error e => rfl
  | ok a => rfl

theorem unplaced_readText (quote : Char) (start start' : Position) (cs : List Char)
    (p p' : Position) :
    unplaced (readText quote start cs p) = unplaced (readText quote start' cs p') := by
  fun_induction readText quote start cs p generalizing p' with
  | case1 => rfl
  | case2 => simp [readText, unplaced]
  | case3 rest p hbreak =>
    rw [readText_quote _ _ _ hbreak]
    rfl
  | case4 p hbreak hquote => simp [readText, hquote, unplaced]
  | case5 p e rest hnone hbreak hquote => simp [readText, hquote, hnone, unplaced]
  | case6 p e rest x hx hbreak hquote ih =>
    rw [readText_escaped _ _ _ hquote hx, unplaced_bind, unplaced_bind, ih]
  | case7 c rest p hbreak hquote hslash ih =>
    rw [readText_plain _ _ _ hquote hslash hbreak, unplaced_bind, unplaced_bind, ih]

/-- Whether an integer may end in front of these characters. -/
def endsInteger : List Char → Bool
  | '.' :: c :: _ => !c.isDigit
  | c :: _ => !Text.isAlphabetic c
  | [] => true

theorem Reader.integer_eq (r : Reader) : r.integer =
    if 9223372036854775807 < digitsValue ((r.takeWhile isIntegerPart).1.filter Char.isDigit) then
      .error ⟨r.position, .integerTooLarge⟩
    else if endsInteger (r.takeWhile isIntegerPart).2.rest then
      .ok (.int (.ofNat (digitsValue ((r.takeWhile isIntegerPart).1.filter Char.isDigit))),
        (r.takeWhile isIntegerPart).2)
    else .error ⟨r.position, .notAnInteger⟩ := by
  unfold Reader.integer endsInteger
  dsimp only
  congr 1
  split <;> grind

/-- The integer that comes next and the characters behind it. -/
def nextInteger (cs : List Char) : Except SyntaxCause (TokenKind × List Char) :=
  let value := digitsValue ((cs.takeWhile isIntegerPart).filter Char.isDigit)
  if 9223372036854775807 < value then .error .integerTooLarge
  else if endsInteger (cs.dropWhile isIntegerPart) then
    .ok (.int (.ofNat value), cs.dropWhile isIntegerPart)
  else .error .notAnInteger

theorem unplaced_integer (r : Reader) : unplaced r.integer = nextInteger r.rest := by
  rw [Reader.integer_eq, apply_ite unplaced, apply_ite unplaced]
  rfl

/-- The operator that comes next and the characters behind it. -/
def nextOperator (operators : List String) (cs : List Char) :
    Except SyntaxCause (TokenKind × List Char) :=
  match operators.find? fun op => op.toList.isPrefixOf cs with
  | some op => .ok (.op op, cs.drop op.length)
  | none =>
    match cs with
    | c :: _ => .error (.unexpectedCharacter c)
    | [] => .error (.expectedExpression .eof)

theorem unplaced_operator (operators : List String) (r : Reader) :
    unplaced (r.operator operators) = nextOperator operators r.rest := by
  obtain ⟨cs, p⟩ := r
  unfold Reader.operator nextOperator
  dsimp only
  cases operators.find? fun op => op.toList.isPrefixOf cs with
  | some op => rfl
  | none =>
    cases cs with
    | nil => rfl
    | cons c cs => rfl

/-- The rest of a text in quotes and the characters behind it. -/
def nextText (quote : Char) (cs : List Char) : Except SyntaxCause (List Char × List Char) :=
  unplaced (readText quote Position.start cs Position.start)

/-- The token that comes next, by its first character. -/
theorem unplaced_token_cons (operators : List String) (c : Char) (cs : List Char) (p : Position) :
    unplaced (Reader.token operators ⟨c :: cs, p⟩) =
      if c.isDigit then nextInteger (c :: cs)
      else if c = '"' ∨ c = '\'' then do
        let (text, cs) ← nextText c cs
        return (.str (String.ofList text), cs)
      else if isNameStart c then
        .ok (.name (String.ofList ((c :: cs).takeWhile isNamePart)), (c :: cs).dropWhile isNamePart)
      else nextOperator operators (c :: cs) := by
  unfold Reader.token
  dsimp only
  split
  · exact unplaced_integer _
  · split
    · rw [nextText, unplaced_readText _ _ p _ _ (p.next c)]
      exact unplaced_bind _ fun text => TokenKind.str (String.ofList text)
    · split
      · rfl
      · exact unplaced_operator _ _

/-- Positions do not matter. -/
theorem unplaced_token (operators : List String) (r : Reader) :
    unplaced (r.token operators) = nextToken operators r.rest := by
  obtain ⟨cs, p⟩ := r
  cases cs with
  | nil =>
    exact (unplaced_operator operators ⟨[], p⟩).trans
      (unplaced_operator operators ⟨[], Position.start⟩).symm
  | cons c cs => exact (unplaced_token_cons ..).trans (unplaced_token_cons ..).symm

theorem nextToken_eq_ok_iff {operators : List String} {r : Reader} {kind : TokenKind}
    {cs : List Char} : nextToken operators r.rest = .ok (kind, cs) ↔
      ∃ after, r.token operators = .ok (kind, after) ∧ after.rest = cs := by
  rw [← unplaced_token]
  cases r.token operators with
  | error e => exact ⟨nofun, fun ⟨_, h, _⟩ => nomatch h⟩
  | ok x =>
    constructor
    · intro h
      cases h
      exact ⟨x.2, rfl, rfl⟩
    · rintro ⟨after, h, rfl⟩
      cases h
      rfl

theorem nextToken_eq_error_iff {operators : List String} {r : Reader} {cause : SyntaxCause} :
    nextToken operators r.rest = .error cause ↔
      ∃ e, r.token operators = .error e ∧ e.cause = cause := by
  rw [← unplaced_token]
  cases r.token operators with
  | error e =>
    constructor
    · intro h
      cases h
      exact ⟨e, rfl, rfl⟩
    · rintro ⟨_, h, rfl⟩
      cases h
      rfl
  | ok x => exact ⟨nofun, fun ⟨_, h, _⟩ => nomatch h⟩

/-! ### Ends of lines -/

section Head

variable {tail : List Char} {p : Char → Bool} (h : ∀ c ∈ tail.head?, p c = false)
include h

theorem takeWhile_append_of_head? (cs : List Char) :
    (cs ++ tail).takeWhile p = cs.takeWhile p := by
  have htail : tail.takeWhile p = [] := by
    cases tail with
    | nil => rfl
    | cons c cs => exact List.takeWhile_cons_of_neg (by simp [h c rfl])
  rw [List.takeWhile_append, htail, List.append_nil]
  split
  · next hall => exact ((List.takeWhile_prefix p).eq_of_length hall).symm
  · rfl

theorem dropWhile_append_of_head? (cs : List Char) :
    (cs ++ tail).dropWhile p = cs.dropWhile p ++ tail := by
  have htail : tail.dropWhile p = tail := by
    cases tail with
    | nil => rfl
    | cons c cs => exact List.dropWhile_cons_of_neg (by simp [h c rfl])
  rw [List.dropWhile_append, htail]
  split
  · next hall => rw [List.isEmpty_iff.1 hall, List.nil_append]
  · rfl

end Head

/-- Nothing is left of a source, or a line feed comes next. -/
def AtLineEnd (cs : List Char) : Prop := cs = [] ∨ ∃ rest, cs = '\n' :: rest

theorem atLineEnd_feed (rest : List Char) : AtLineEnd ('\n' :: rest) := .inr ⟨rest, rfl⟩

theorem atLineEnd_dropWhile (cs : List Char) : AtLineEnd (cs.dropWhile (· != '\n')) := by
  cases hdrop : cs.dropWhile (· != '\n') with
  | nil => exact .inl rfl
  | cons c rest =>
    have hc := List.head?_dropWhile_not (· != '\n') cs
    rw [hdrop] at hc
    obtain rfl : c = '\n' := by simpa using hc
    exact .inr ⟨rest, rfl⟩

theorem AtLineEnd.take {cs : List Char} (h : AtLineEnd cs) : AtLineEnd (cs.take 1) := by
  obtain rfl | ⟨rest, rfl⟩ := h
  · exact .inl rfl
  · exact .inr ⟨[], rfl⟩

theorem AtLineEnd.head?_eq_false {cs : List Char} (h : AtLineEnd cs) {p : Char → Bool}
    (hfeed : p '\n' = false) : ∀ c ∈ cs.head?, p c = false := by
  obtain rfl | ⟨rest, rfl⟩ := h
  · exact fun _ hc => nomatch hc
  · exact fun _ hc => by cases hc; exact hfeed

theorem AtLineEnd.dropWhile {tail : List Char} (h : AtLineEnd tail) (cs : List Char) :
    (cs ++ tail).dropWhile (· != '\n') = cs.dropWhile (· != '\n') ++ tail :=
  dropWhile_append_of_head? (h.head?_eq_false rfl) cs

/-- What may follow a line: the end of the source, or a line feed, with or without a carriage return
before it. -/
inductive EndsLine : List Char → Prop
  | nil : EndsLine []
  | feed (cs : List Char) : EndsLine ('\n' :: cs)
  | returnFeed (cs : List Char) : EndsLine ('\r' :: '\n' :: cs)

/-- A result is the same in front of more characters. -/
def continued {α : Type} (tail : List Char) (x : α × List Char) : α × List Char :=
  (x.1, x.2 ++ tail)

theorem AtLineEnd.endsLine {cs : List Char} (h : AtLineEnd cs) : EndsLine cs := by
  obtain rfl | ⟨rest, rfl⟩ := h
  · exact .nil
  · exact .feed rest

section Texts

variable {tail : List Char} {x y : Except SyntaxError (List Char × Reader)}

/-- One more character is read before the rest of a text. -/
theorem unplaced_cons (c : Char) (h : unplaced x = (unplaced y).map (continued tail)) :
    unplaced (do
      let (text, r) ← x
      return (c :: text, r)) = (unplaced (do
      let (text, r) ← y
      return (c :: text, r))).map (continued tail) := by
  rw [unplaced_bind, unplaced_bind, h]
  cases unplaced y with
  | error e => rfl
  | ok a => rfl

theorem toOption_unplaced_cons (c : Char)
    (h : (unplaced x).toOption = (unplaced y).toOption.map (continued tail)) :
    (unplaced (do
      let (text, r) ← x
      return (c :: text, r))).toOption = (unplaced (do
      let (text, r) ← y
      return (c :: text, r))).toOption.map (continued tail) := by
  rw [unplaced_bind, unplaced_bind]
  cases hx : unplaced x <;> cases hy : unplaced y <;> rw [hx, hy] at h
  · rfl
  · cases h
  · cases h
  · cases h
    rfl

end Texts

namespace EndsLine

variable {tail : List Char} {p : Char → Bool}

theorem head?_eq_false (h : EndsLine tail) (hfeed : p '\n' = false) (hreturn : p '\r' = false) :
    ∀ c ∈ tail.head?, p c = false := by
  cases h <;> simp [hfeed, hreturn]

theorem isPrefixOf_append (h : EndsLine tail) {op : List Char} (hfeed : '\n' ∉ op)
    (hreturn : '\r' ∉ op) (cs : List Char) : op.isPrefixOf (cs ++ tail) = op.isPrefixOf cs := by
  induction op generalizing cs with
  | nil => rfl
  | cons c op ih =>
    rw [List.mem_cons, not_or] at hfeed hreturn
    cases cs with
    | nil => cases h <;> simp [List.isPrefixOf, Ne.symm hfeed.1, Ne.symm hreturn.1]
    | cons d cs => rw [List.cons_append, List.isPrefixOf, List.isPrefixOf, ih hfeed.2 hreturn.2]

/-- Behind a point no end of a line is a digit, and it is no letter. -/
theorem endsInteger_append (h : EndsLine tail) (cs : List Char) :
    endsInteger (cs ++ tail) = endsInteger cs := by
  rcases cs with _ | ⟨c, _ | ⟨d, cs⟩⟩
  · cases h <;> rfl
  · by_cases hc : c = '.'
    · subst hc
      cases h <;> rfl
    · simp [endsInteger, hc]
  · by_cases hc : c = '.'
    · subst hc
      rfl
    · simp [endsInteger, hc]

theorem nextInteger_append (h : EndsLine tail) (cs : List Char) :
    nextInteger (cs ++ tail) = (nextInteger cs).map (continued tail) := by
  have hfeed : isIntegerPart '\n' = false := by decide
  have hreturn : isIntegerPart '\r' = false := by decide
  unfold nextInteger
  rw [takeWhile_append_of_head? (h.head?_eq_false hfeed hreturn),
    dropWhile_append_of_head? (h.head?_eq_false hfeed hreturn), h.endsInteger_append]
  dsimp only
  rw [apply_ite (Except.map (continued tail)), apply_ite (Except.map (continued tail))]
  rfl

/-- A text in quotes does not end on another line. -/
theorem readText_eq_error (h : EndsLine tail) {quote : Char} (hreturn : quote ≠ '\r')
    (start p : Position) : readText quote start tail p = .error ⟨start, .unterminatedString⟩ := by
  cases h with
  | nil => rfl
  | feed cs => simp [readText]
  | returnFeed cs => simp [readText, hreturn.symm]

/-- No line ends in an escape sequence. -/
theorem escaped_eq_none (h : EndsLine tail) : ∀ e ∈ tail.head?, escaped? e = none := by
  cases h <;> simp [escaped?]

theorem readText_append (h : EndsLine tail) {quote : Char} (hreturn : quote ≠ '\r')
    (start : Position) (cs : List Char) (p : Position) :
    (unplaced (readText quote start (cs ++ tail) p)).toOption =
      (unplaced (readText quote start cs p)).toOption.map (continued tail) := by
  fun_induction readText quote start cs p with
  | case1 p =>
    rw [List.nil_append, h.readText_eq_error hreturn]
    rfl
  | case2 => simp [readText, unplaced, Except.toOption]
  | case3 rest p hbreak =>
    rw [List.cons_append, readText_quote _ _ _ hbreak]
    rfl
  | case4 p hbreak hquote =>
    cases htail : tail with
    | nil => simp [readText, hquote, unplaced, Except.toOption]
    | cons e rest =>
      have hnone := h.escaped_eq_none e (htail ▸ rfl)
      simp [readText, hquote, hnone, unplaced, Except.toOption]
  | case5 p e rest hnone hbreak hquote =>
    simp [readText, hquote, hnone, unplaced, Except.toOption]
  | case6 p e rest x hx hbreak hquote ih =>
    rw [List.cons_append, List.cons_append, readText_escaped _ _ _ hquote hx]
    exact toOption_unplaced_cons x ih
  | case7 c rest p hbreak hquote hslash ih =>
    rw [List.cons_append, readText_plain _ _ _ hquote hslash hbreak]
    exact toOption_unplaced_cons c ih

theorem nextOperator_append (h : EndsLine tail) {operators : List String}
    (hoperators : ∀ op ∈ operators, '\n' ∉ op.toList ∧ '\r' ∉ op.toList) {cs : List Char}
    (hne : cs ≠ []) : nextOperator operators (cs ++ tail) =
      (nextOperator operators cs).map (continued tail) := by
  have hfind : (operators.find? fun op => op.toList.isPrefixOf (cs ++ tail)) =
      operators.find? fun op => op.toList.isPrefixOf cs :=
    List.find?_congr fun op hop =>
      h.isPrefixOf_append (hoperators op hop).1 (hoperators op hop).2 cs
  obtain ⟨c, cs, rfl⟩ := List.exists_cons_of_ne_nil hne
  unfold nextOperator
  rw [hfind]
  split
  · next op hop =>
    have hprefix : op.toList.isPrefixOf (c :: cs) = true := by simpa using List.find?_some hop
    have hle := (List.isPrefixOf_iff_prefix.1 hprefix).length_le
    rw [String.length_toList] at hle
    rw [List.drop_append_of_le_length hle]
    rfl
  · rfl

/-- Whether a token comes next, and which one, does not depend on what follows the line. -/
theorem nextToken_append (h : EndsLine tail) {operators : List String}
    (hoperators : ∀ op ∈ operators, '\n' ∉ op.toList ∧ '\r' ∉ op.toList) {cs : List Char}
    (hne : cs ≠ []) : (nextToken operators (cs ++ tail)).toOption =
      (nextToken operators cs).toOption.map (continued tail) := by
  have hmap {x y : Except SyntaxCause (TokenKind × List Char)} (hxy : x = y.map (continued tail)) :
      x.toOption = y.toOption.map (continued tail) := by
    subst hxy
    cases y with
    | error e => rfl
    | ok a => rfl
  obtain ⟨c, cs, rfl⟩ := List.exists_cons_of_ne_nil hne
  rw [nextToken, nextToken, List.cons_append, unplaced_token_cons, unplaced_token_cons]
  split
  · exact hmap (h.nextInteger_append (c :: cs))
  · split
    · next hquote =>
      have hreturn : c ≠ '\r' := by
        rintro rfl
        revert hquote
        decide
      have htext := h.readText_append hreturn Position.start cs Position.start
      rw [← nextText, ← nextText] at htext
      cases hx : nextText c (cs ++ tail) <;> cases hy : nextText c cs <;> rw [hx, hy] at htext
      · rfl
      · cases htext
      · cases htext
      · cases htext
        rfl
    · split
      · have hfeed : isNamePart '\n' = false := by decide
        have hreturn : isNamePart '\r' = false := by decide
        rw [← List.cons_append, takeWhile_append_of_head? (h.head?_eq_false hfeed hreturn),
          dropWhile_append_of_head? (h.head?_eq_false hfeed hreturn)]
        rfl
      · exact hmap (h.nextOperator_append hoperators (List.cons_ne_nil c cs))

end EndsLine

theorem EndsLine.nextToken_eq_ok {tail : List Char} (h : EndsLine tail) {operators : List String}
    (hoperators : ∀ op ∈ operators, '\n' ∉ op.toList ∧ '\r' ∉ op.toList) {cs rest : List Char}
    (hne : cs ≠ []) {kind : TokenKind} (htoken : nextToken operators cs = .ok (kind, rest)) :
    nextToken operators (cs ++ tail) = .ok (kind, rest ++ tail) := by
  have happend := h.nextToken_append hoperators hne
  rw [htoken] at happend
  cases hx : nextToken operators (cs ++ tail) with
  | error cause =>
    rw [hx] at happend
    cases happend
  | ok x =>
    rw [hx] at happend
    cases happend
    rfl

theorem EndsLine.nextToken_eq_error {tail : List Char} (h : EndsLine tail)
    {operators : List String}
    (hoperators : ∀ op ∈ operators, '\n' ∉ op.toList ∧ '\r' ∉ op.toList) {cs : List Char}
    (hne : cs ≠ []) {cause : SyntaxCause} (htoken : nextToken operators cs = .error cause) :
    ∃ cause', nextToken operators (cs ++ tail) = .error cause' := by
  have happend := h.nextToken_append hoperators hne
  rw [htoken] at happend
  cases hx : nextToken operators (cs ++ tail) with
  | error cause' => exact ⟨cause', rfl⟩
  | ok x =>
    rw [hx] at happend
    cases happend

/-! ### Line feeds -/

section Feed

variable {operators : List String} {cs : List Char}

theorem readText_feed (quote : Char) (start : Position) (cs rest : List Char) (p : Position) :
    unplaced (readText quote start (cs ++ '\n' :: rest) p) =
      (unplaced (readText quote start (cs ++ ['\n']) p)).map (continued rest) := by
  fun_induction readText quote start cs p with
  | case1 p => simp [readText, unplaced, Except.map]
  | case2 => simp [readText, unplaced, Except.map]
  | case3 cs p hbreak =>
    rw [List.cons_append, List.cons_append, readText_quote _ _ _ hbreak,
      readText_quote _ _ _ hbreak]
    simp [unplaced, Except.map, continued]
  | case4 p hbreak hquote => simp [readText, hquote, escaped?, unplaced, Except.map]
  | case5 p e cs hnone hbreak hquote => simp [readText, hquote, hnone, unplaced, Except.map]
  | case6 p e cs x hx hbreak hquote ih =>
    simp only [List.cons_append]
    rw [readText_escaped _ _ _ hquote hx, readText_escaped _ _ _ hquote hx]
    exact unplaced_cons x ih
  | case7 c cs p hbreak hquote hslash ih =>
    simp only [List.cons_append]
    rw [readText_plain _ _ _ hquote hslash hbreak, readText_plain _ _ _ hquote hslash hbreak]
    exact unplaced_cons c ih

/-- Neither a token nor an error depends on what stands behind the next line feed. -/
theorem nextToken_feed
    (hoperators : ∀ op ∈ operators, '\n' ∉ op.toList ∧ '\r' ∉ op.toList) (hne : cs ≠ [])
    (rest : List Char) : nextToken operators (cs ++ '\n' :: rest) =
      (nextToken operators (cs ++ ['\n'])).map (continued rest) := by
  have hmap {x y z : Except SyntaxCause (TokenKind × List Char)}
      (hx : x = z.map (continued ('\n' :: rest))) (hy : y = z.map (continued ['\n'])) :
      x = y.map (continued rest) := by
    subst hx hy
    cases z with
    | error e => rfl
    | ok a => simp [Except.map, continued]
  obtain ⟨c, cs, rfl⟩ := List.exists_cons_of_ne_nil hne
  rw [nextToken, nextToken, List.cons_append, List.cons_append, unplaced_token_cons,
    unplaced_token_cons]
  split
  · exact hmap ((EndsLine.feed rest).nextInteger_append (c :: cs))
      ((EndsLine.feed []).nextInteger_append (c :: cs))
  · split
    · have htext := readText_feed c Position.start cs rest Position.start
      rw [← nextText, ← nextText] at htext
      rw [htext]
      cases nextText c (cs ++ ['\n']) with
      | error e => rfl
      | ok x => rfl
    · split
      · have hfeed : isNamePart '\n' = false := by decide
        have hreturn : isNamePart '\r' = false := by decide
        have hhead := (EndsLine.feed rest).head?_eq_false hfeed hreturn
        have hhead' := (EndsLine.feed []).head?_eq_false hfeed hreturn
        rw [← List.cons_append, ← List.cons_append, takeWhile_append_of_head? hhead,
          dropWhile_append_of_head? hhead, takeWhile_append_of_head? hhead',
          dropWhile_append_of_head? hhead']
        simp [Except.map, continued]
      · exact hmap ((EndsLine.feed rest).nextOperator_append hoperators (List.cons_ne_nil c cs))
          ((EndsLine.feed []).nextOperator_append hoperators (List.cons_ne_nil c cs))

end Feed

theorem Indented.oneLine_operators :
    ∀ op ∈ operators, '\n' ∉ op.toList ∧ '\r' ∉ op.toList := by decide

theorem Braced.oneLine_operators :
    ∀ op ∈ operators, '\n' ∉ op.toList ∧ '\r' ∉ op.toList := by decide

end Labyrinth
