import Labyrinth.Proofs.Language.Leading
import Labyrinth.Proofs.Language.Printable

/-!
# Levels of expressions

The grammar reads expressions in levels. What stands behind an expression matters: a token **binds**
as tightly as the operator that it is, and an expression ends where nothing follows that binds as
tightly as the level on which it is read.

Operators associate to the left, so the left operand of an operator is read by the very loop that
then reads the operator. Being **read** on a level therefore means to arrive, with the expression as
the left operand, at the point where that loop goes on.

## Main results

* `Expr.ReadAt.mono`: what is read on a level is read on every looser one.
* `Expr.Reread.enclosed`: parentheses make an expression readable on every level.
* `leads_call`, `leads_member`: what follows an expression without operators.
-/

namespace Labyrinth

open Labyrinth.Parser Labyrinth.Braced

/-! ### Levels -/

/-- How tightly an operator **binds**; an opening parenthesis would make a call of everything. -/
def grip : TokenKind → Nat
  | .op "||" => 1
  | .op "&&" => 2
  | .op "===" => 3
  | .op "==" => 3
  | .op "!==" => 3
  | .op "!=" => 3
  | .op "<=" => 4
  | .op ">=" => 4
  | .op "<" => 4
  | .op ">" => 4
  | .op "+" => 5
  | .op "-" => 5
  | .op "*" => 6
  | .op "/" => 6
  | .op "%" => 6
  | .op "[" => 8
  | .op "." => 8
  | .op "(" => 9
  | _ => 0

/-- The parsers of the grammar by level, from disjunctions to expressions without operators. -/
def level (nested : Nat → Parser Expr) : Nat → Nat → Parser Expr
  | 1 => disjunction nested
  | 2 => conjunction nested
  | 3 => equality nested
  | 4 => relation nested
  | 5 => sum nested
  | 6 => term nested
  | 7 => prefixed nested
  | _ => postfixed nested

/-- How the parser of a level goes on when it has read an expression. -/
def goOn (nested : Nat → Parser Expr) : Nat → Nat → Expr → Parser Expr
  | 1 => chainRest (oneOf [("||", .or)]) (conjunction nested) .logical
  | 2 => chainRest (oneOf [("&&", .and)]) (equality nested) .logical
  | 3 => chainRest (oneOf [("===", .eq), ("==", .eq), ("!==", .ne), ("!=", .ne)]) (relation nested)
      .binary
  | 4 => chainRest (oneOf [("<=", .le), (">=", .ge), ("<", .lt), (">", .gt)]) (sum nested) .binary
  | 5 => chainRest (oneOf [("+", .add), ("-", .sub)]) (term nested) .binary
  | 6 => chainRest (oneOf [("*", .mul), ("/", .div), ("%", .rem)]) (prefixed nested) .binary
  | 7 => fun _ e => pure e
  | _ => suffixes nested

theorem level_eq_bind (nested : Nat → Parser Expr) {n : Nat} (h1 : 1 ≤ n) (h6 : n ≤ 6)
    (room : Nat) :
    level nested n room = level nested (n + 1) room >>= goOn nested n room := by
  interval_cases n <;> rfl

theorem yields_oneOf_of_grip {β : Type} {operators : List (String × β)} {v : View} {n : Nat}
    (hnext : grip v.next < n) (h : ∀ entry ∈ operators, grip (.op entry.1) = n) :
    Yields (oneOf operators) v v none := by
  refine yields_oneOf_none fun op b hmem heq => ?_
  have hn : grip (.op op) = n := h (op, b) hmem
  rw [heq] at hnext
  omega

theorem yields_suffix_none {nested : Nat → Parser Expr} {v : View} (hnext : grip v.next < 8)
    (room : Nat) (e : Expr) : Yields (suffix nested room e) v v none := by
  unfold suffix
  refine .bind yields_peek ?_
  split
  · rename_i heq
    rw [heq] at hnext
    exact absurd hnext (by decide)
  · rename_i heq
    rw [heq] at hnext
    exact absurd hnext (by decide)
  · rename_i heq
    rw [heq] at hnext
    exact absurd hnext (by decide)
  · exact .pure

/-- An expression ends where nothing follows that binds tightly enough. -/
theorem yields_goOn {nested : Nat → Parser Expr} {v : View} {n : Nat} (h1 : 1 ≤ n) (h8 : n ≤ 8)
    (hnext : grip v.next < n) (room : Nat) (e : Expr) : Yields (goOn nested n room e) v v e := by
  interval_cases n
  iterate 6 exact yields_chainRest (yields_oneOf_of_grip hnext (by decide)) room
  · exact .pure
  · cases room with
    | zero => exact .bind (yields_suffix_none hnext 0 e) .pure
    | succ room => exact .bind (yields_suffix_none hnext (room + 1) e) .pure

/-! ### Reading on a level -/

/-- An expression is **read** from tokens on a level if the parser of the level arrives behind them
with the expression, wherever nothing follows that binds more tightly. -/
def Expr.ReadAt (n : Nat) (e : Expr) (ks : List TokenKind) : Prop :=
  ∀ depth room rest ahead, grip (View.mk rest ahead).next ≤ n →
    Leads (level (exprAt depth) n room) ⟨ks ++ rest, ahead⟩ ⟨rest, ahead⟩ fun q =>
      ∃ r, q = goOn (exprAt depth) n r e

/-- The words with which statements begin that are no expressions, or go on. -/
def leaders : List String := ["function", "let", "const", "var", "for", "while", "if", "return",
  "break", "continue", "throw", "else"]

theorem leaders_subset : leaders ⊆ keywords := by decide

/-- A token with which an expression can begin, but no other statement. Only those that are held
together loosely begin with a prefix operator. -/
def TokenKind.Begins (tightness : Nat) : TokenKind → Prop
  | int _ => True
  | str _ => True
  | op spelling => spelling ∈ ["(", "["] ∨ tightness < 8 ∧ spelling ∈ ["!", "-"]
  | name x => x ∉ leaders ∧ (x = "await" → tightness < 8)
  | _ => False

theorem TokenKind.Begins.mono {k : TokenKind} {m n : Nat} (h : k.Begins m) (hle : n ≤ m) :
    k.Begins n := by
  cases k with
  | op => exact h.imp_right fun hop => ⟨by omega, hop.2⟩
  | name => exact ⟨h.1, fun hx => Nat.lt_of_le_of_lt hle (h.2 hx)⟩
  | int | str => trivial
  | comment | newline | indent | dedent | eof => exact h

/-- Tokens that begin like an expression. -/
def BeginsAt (n : Nat) (ks : List TokenKind) : Prop := ∃ k rest, ks = k :: rest ∧ k.Begins n

theorem BeginsAt.append {n : Nat} {ks : List TokenKind} (h : BeginsAt n ks) (ls : List TokenKind) :
    BeginsAt n (ks ++ ls) := by
  obtain ⟨k, rest, rfl, hk⟩ := h
  exact ⟨k, rest ++ ls, rfl, hk⟩

theorem BeginsAt.mono {m n : Nat} {ks : List TokenKind} (h : BeginsAt m ks) (hle : n ≤ m) :
    BeginsAt n ks := by
  obtain ⟨k, rest, hks, hk⟩ := h
  exact ⟨k, rest, hks, hk.mono hle⟩

namespace Expr.ReadAt

variable {e : Expr} {ks : List TokenKind} {n : Nat}

/-- Where nothing follows, an expression is read to its end. -/
theorem yields (h : e.ReadAt n ks) (h1 : 1 ≤ n) (h8 : n ≤ 8) (depth room : Nat)
    {rest : List TokenKind} {ahead : List String} (hnext : grip (View.mk rest ahead).next < n) :
    Yields (level (exprAt depth) n room) ⟨ks ++ rest, ahead⟩ ⟨rest, ahead⟩ e := by
  refine (h depth room rest ahead (Nat.le_of_lt hnext)).trans ?_
  rintro q ⟨r, rfl⟩
  exact yields_goOn h1 h8 hnext r e

/-- What is read on a level is read on the one below. -/
theorem pred (h : e.ReadAt (n + 1) ks) (h1 : 1 ≤ n) (h6 : n ≤ 6) : e.ReadAt n ks := by
  intro depth room rest ahead hnext
  rw [level_eq_bind (exprAt depth) h1 h6 room]
  exact .bind (h.yields (by omega) (by omega) depth room (Nat.lt_succ_of_le hnext))
    (.here ⟨room, rfl⟩)

theorem prefixed (h : e.ReadAt 8 ks) (hks : BeginsAt 8 ks) : e.ReadAt 7 ks := by
  intro depth room rest ahead hnext
  obtain ⟨k, tail, rfl, hk⟩ := hks
  have hnot : (View.mk (k :: tail ++ rest) ahead).next ≠ .op "!" := by
    rintro rfl
    simp [TokenKind.Begins] at hk
  have hminus : (View.mk (k :: tail ++ rest) ahead).next ≠ .op "-" := by
    rintro rfl
    simp [TokenKind.Begins] at hk
  have hawait : (View.mk (k :: tail ++ rest) ahead).next ≠ .name "await" := by
    rintro rfl
    simp [TokenKind.Begins] at hk
  have hyields (r : Nat) := h.yields (by decide) (Nat.le_refl 8) depth r (Nat.lt_succ_of_le hnext)
  cases room with
  | zero =>
    refine .bind (yields_eat_of_ne hnot) (.bind (yields_eat_of_ne hminus) ?_)
    exact .bind (yields_eat_of_ne hawait) ((hyields 0).trans fun q hq => .here ⟨0, hq⟩)
  | succ room =>
    refine .bind (yields_eat_of_ne hnot) (.bind (yields_eat_of_ne hminus) ?_)
    exact .bind (yields_eat_of_ne hawait) ((hyields (room + 1)).trans fun q hq => .here ⟨0, hq⟩)

/-- An operand of a prefix operator goes on for nothing but suffixes. -/
theorem yields_prefixed (h : e.ReadAt 7 ks) (depth room : Nat) {rest : List TokenKind}
    {ahead : List String} (hnext : grip (View.mk rest ahead).next ≤ 7) :
    Yields (Braced.prefixed (exprAt depth) room) ⟨ks ++ rest, ahead⟩ ⟨rest, ahead⟩ e := by
  refine (h depth room rest ahead hnext).trans ?_
  rintro q ⟨r, rfl⟩
  exact .here rfl

/-- What is read on a level is read on every looser one. -/
theorem mono {m : Nat} (h : e.ReadAt m ks) (hks : BeginsAt m ks) (h1 : 1 ≤ n) (hle : n ≤ m)
    (h8 : m ≤ 8) : e.ReadAt n ks := by
  induction hle with
  | refl => exact h
  | @step m hle ih =>
    refine ih ?_ (hks.mono (Nat.le_succ m)) (by omega)
    have hm : m = 7 ∨ m ≤ 6 := by omega
    rcases hm with rfl | hm
    · exact h.prefixed hks
    · exact h.pred (h1.trans hle) hm

/-- What the parser of whole expressions makes of the tokens. -/
theorem yields_exprAt (h : e.ReadAt 1 ks) (depth room : Nat) {rest : List TokenKind}
    {ahead : List String} (hnext : grip (View.mk rest ahead).next = 0) :
    Yields (exprAt depth room) ⟨ks ++ rest, ahead⟩ ⟨rest, ahead⟩ e := by
  cases depth with
  | zero => exact leads_fail
  | succ depth =>
    refine leads_descend fun r _ => ?_
    exact h.yields (Nat.le_refl 1) (by decide) depth (room - 1) (by omega)

end Expr.ReadAt

/-- An expression that is **reread** from its tokens, on the level of its tightness. -/
structure Expr.Reread (e : Expr) : Prop where
  begins : BeginsAt (tightness e) e.kinds
  readAt : e.ReadAt (tightness e) e.kinds

theorem tightness_pos (e : Expr) : 1 ≤ tightness e := by
  unfold tightness
  split
  all_goals try decide
  · rename_i op _ _
    cases op <;> decide
  · split <;> decide

theorem tightness_le (e : Expr) : tightness e ≤ 8 := by
  unfold tightness
  split
  all_goals try decide
  · rename_i op _ _
    cases op <;> decide
  · split <;> decide

/-- An expression without operators. -/
theorem Expr.readAt_of_atom {e : Expr} {ks : List TokenKind}
    (h : ∀ depth room rest ahead,
      Yields (atom (exprAt depth) room) ⟨ks ++ rest, ahead⟩ ⟨rest, ahead⟩ e) : e.ReadAt 8 ks :=
  fun depth room rest ahead _ => .bind (h depth room rest ahead) (.here ⟨room, rfl⟩)

namespace Expr.Reread

variable {e : Expr} (h : e.Reread)
include h

theorem readAt_one : e.ReadAt 1 e.kinds :=
  h.readAt.mono h.begins (Nat.le_refl 1) (tightness_pos e) (tightness_le e)

/-- The parser of whole expressions. -/
theorem yields (depth room : Nat) {rest : List TokenKind} {ahead : List String}
    (hnext : grip (View.mk rest ahead).next = 0) :
    Yields (exprAt depth room) ⟨e.kinds ++ rest, ahead⟩ ⟨rest, ahead⟩ e :=
  h.readAt_one.yields_exprAt depth room hnext

theorem readAt_parenthesized : e.ReadAt 8 (parenthesized e.kinds) := by
  refine Expr.readAt_of_atom fun depth room rest ahead => ?_
  simp only [parenthesized, List.cons_append, List.append_assoc, List.nil_append]
  exact .bind yields_peek (.bind yields_advance (.bind (h.yields depth room rfl)
    (.bind yields_expectOp .pure)))

theorem beginsAt_enclosed (n : Nat) : BeginsAt n (enclosed n e e.kinds) := by
  unfold enclosed
  split
  · exact ⟨.op "(", _, rfl, .inl (by decide)⟩
  · rename_i hle
    exact h.begins.mono (Nat.le_of_not_lt hle)

/-- Parentheses make an expression readable on every level. -/
theorem enclosed {n : Nat} (h1 : 1 ≤ n) (h8 : n ≤ 8) : e.ReadAt n (enclosed n e e.kinds) := by
  unfold Labyrinth.enclosed
  split
  · exact h.readAt_parenthesized.mono ⟨.op "(", _, rfl, .inl (by decide)⟩ h1 h8 (Nat.le_refl 8)
  · rename_i hle
    exact h.readAt.mono h.begins h1 (Nat.le_of_not_lt hle) (tightness_le e)

end Expr.Reread

/-! ### Several expressions -/

theorem Expr.eachKinds_eq (es : List Expr) : Expr.eachKinds es = es.map Expr.kinds := by
  induction es with
  | nil => rfl
  | cons e es ih => rw [Expr.eachKinds, ih, List.map_cons]

/-- Items with commas between them. -/
theorem yields_separated {α : Type} {item : Parser α} {kindsOf : α → List TokenKind}
    {close : String}
    {xs : List α} {ahead : List String} (hclose : close ≠ ",")
    (hfirst : ∀ x ∈ xs, ∃ k ks, kindsOf x = k :: ks ∧ k ≠ .op close)
    (hitem : ∀ x ∈ xs, ∀ rest, (View.mk rest ahead).next ∈ [.op ",", .op close] →
      Yields item ⟨kindsOf x ++ rest, ahead⟩ ⟨rest, ahead⟩ x) (rest : List TokenKind) :
    Yields (separated close item) ⟨commas (xs.map kindsOf) ++ .op close :: rest, ahead⟩
      ⟨rest, ahead⟩ xs := by
  have hnext : TokenKind.op close ≠ .op "," := fun heq => hclose (TokenKind.op.inj heq)
  refine .bind ?_ (.bind yields_expectOp .pure)
  induction xs with
  | nil => exact .collect_stop (.bind (yields_check_of_eq rfl) .pure)
  | cons x xs ih =>
    obtain ⟨⟨k, ks, hks, hk⟩, hfirst⟩ := List.forall_mem_cons.1 hfirst
    obtain ⟨hx, hitem⟩ := List.forall_mem_cons.1 hitem
    cases xs with
    | nil =>
      simp only [List.map_cons, List.map_nil, commas]
      refine .collect_last (.bind (yields_check_of_ne ?_) ?_)
      · rw [hks]
        exact hk
      · exact .bind (hx _ (by simp [View.next])) (.bind (yields_eat_of_ne hnext) .pure)
    | cons y ys =>
      simp only [List.map_cons, commas, List.append_assoc, List.cons_append] at ih ⊢
      refine .collect_more (.bind (yields_check_of_ne ?_) ?_) ?_ (ih hfirst hitem)
      · rw [hks]
        exact hk
      · exact .bind (hx _ (by simp [View.next])) (.bind yields_eat .pure)
      · simp only [List.length_append, List.length_cons]
        omega

/-- Every expression of a list is reread. -/
def Expr.AllReread (es : List Expr) : Prop := ∀ e ∈ es, e.Reread

theorem Expr.AllReread.yields_separated {es : List Expr} (h : Expr.AllReread es) {close : String}
    (hclose : close = ")" ∨ close = "]") (depth room : Nat) (rest : List TokenKind)
    (ahead : List String) :
    Yields (separated close (exprAt depth room))
      ⟨commas (Expr.eachKinds es) ++ .op close :: rest, ahead⟩ ⟨rest, ahead⟩ es := by
  rw [Expr.eachKinds_eq]
  refine Labyrinth.yields_separated ?_ (fun e he => ?_) (fun e he rest hnext => ?_) rest
  · rcases hclose with rfl | rfl
    · decide
    · decide
  · obtain ⟨k, ks, hks, hk⟩ := (h e he).begins
    refine ⟨k, ks, hks, ?_⟩
    rintro rfl
    rcases hclose with rfl | rfl
    · simp [TokenKind.Begins] at hk
    · simp [TokenKind.Begins] at hk
  · refine (h e he).yields depth room ?_
    simp only [List.mem_cons, List.not_mem_nil, or_false] at hnext
    rcases hclose with rfl | rfl
    · rcases hnext with hnext | hnext <;> rw [hnext] <;> rfl
    · rcases hnext with hnext | hnext <;> rw [hnext] <;> rfl

/-- The arguments of a call. -/
theorem Expr.AllReread.yields_arguments {args : List Expr} (h : Expr.AllReread args)
    (depth room : Nat) (rest : List TokenKind) (ahead : List String) :
    Yields (arguments (exprAt depth) room)
      ⟨parenthesized (commas (Expr.eachKinds args)) ++ rest, ahead⟩ ⟨rest, ahead⟩ args := by
  simp only [parenthesized, List.cons_append, List.append_assoc, List.nil_append]
  exact .bind yields_expectOp (h.yields_separated (.inl rfl) depth room rest ahead)

/-! ### Suffixes -/

theorem opens_of_grip {k : TokenKind} (h : 8 ≤ grip k) :
    k = .op "(" ∨ k = .op "[" ∨ k = .op "." := by
  unfold grip at h
  split at h <;> simp at h ⊢

theorem isTooDeep_suffix {nested : Nat → Parser Expr} {v : View} (hnext : 8 ≤ grip v.next)
    {e : Expr} {s : TokenStream} (hs : s.Shows v) : IsTooDeep (suffix nested 0 e s) := by
  rw [← hs.current_kind] at hnext
  obtain hk | hk | hk := opens_of_grip hnext
  all_goals
    refine ⟨s.current.position, ?_⟩
    rw [suffix, stateBind_of_ok rfl, hk]
    rfl

/-- A suffix and what follows it. -/
theorem leads_suffixes {nested : Nat → Parser Expr} {v v' : View} {e e' : Expr}
    (hnext : 8 ≤ grip v.next) (h : ∀ room, Yields (suffix nested (room + 1) e) v v' (some e'))
    (room : Nat) : Leads (suffixes nested room e) v v' fun q => ∃ r, q = suffixes nested r e' := by
  cases room with
  | zero => exact .of_tooDeep fun s hs => .bind (isTooDeep_suffix hnext hs)
  | succ room => exact .bind (h room) (.here ⟨room, rfl⟩)

/-- A call, whatever it is a call of. -/
theorem leads_call {callee e : Expr} {args : List Expr} (hargs : Expr.AllReread args)
    (h : ∀ p, call callee args p = .ok e) (depth room : Nat) (rest : List TokenKind)
    (ahead : List String) :
    Leads (suffixes (exprAt depth) room callee)
      ⟨parenthesized (commas (Expr.eachKinds args)) ++ rest, ahead⟩ ⟨rest, ahead⟩ fun q =>
        ∃ r, q = suffixes (exprAt depth) r e := by
  refine leads_suffixes ?_ (fun room => ?_) room
  · exact Nat.le_succ 8
  · refine .bind yields_peek (leads_descend fun r _ => leads_position fun p => ?_)
    refine .bind (hargs.yields_arguments depth _ rest ahead) ?_
    rw [h p]
    exact .bind (a := e) (.of_ok fun s hs => ⟨s, rfl, hs⟩) (.here rfl)

/-- The name of a member behind a period, where a call follows or where it is not `length`. -/
theorem leads_member {x : String} {rest : List TokenKind} {ahead : List String}
    (h : x ≠ "length" ∨ (View.mk rest ahead).next = .op "(") (e : Expr) (depth room : Nat) :
    Leads (suffixes (exprAt depth) room e) ⟨.op "." :: .name x :: rest, ahead⟩ ⟨rest, ahead⟩
      fun q =>
      ∃ r, q = suffixes (exprAt depth) r (.attribute e x) := by
  refine leads_suffixes ?_ (fun room => ?_) room
  · exact Nat.le_refl 8
  · refine .bind yields_peek (leads_descend fun r _ => .bind yields_advance ?_)
    refine .bind (yields_identifier List.not_mem_nil) (.bind yields_check ?_)
    rcases h with hx | hnext
    · simp only [beq_false_of_ne hx, Bool.false_and, Bool.false_eq_true, if_false]
      exact .here rfl
    · simp only [hnext, beq_self_eq_true, Bool.not_true, Bool.and_false, Bool.false_eq_true,
        if_false]
      exact .here rfl

end Labyrinth
