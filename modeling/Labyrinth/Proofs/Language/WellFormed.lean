import Labyrinth.Language.Braced.Tokens
import Labyrinth.Language.Indented.Tokens
import Labyrinth.Language.Dialect
import Labyrinth.Language.Parser
import Labyrinth.Proofs.Outcome
import Mathlib

/-!
# Well-formed tokens and trees

Not every tree can be read from a source. This module states what distinguishes those that can:
names are spelled as names, a negated integer is an integer, capabilities have as many arguments
as they take, loops are left from within loops and functions from within functions.

The spelling of names, integers and comments is a matter of the **tokens**; all else is decided
by the grammars.

## Main results

* `Indented.lexical_tokens`, `Braced.lexical_tokens`: every token of a source is well-formed.
* `Expr.allWellFormed_iff`, `Stmt.allWellFormed_iff`: a list of trees is well-formed if each of
  them is.
-/

namespace Labyrinth

/-! ### Tokens -/

/-- The spelling of a **name**: a first character and the characters that go on with it. -/
def IsName (s : String) : Prop :=
  ∃ c cs, s.toList = c :: cs ∧ isNameStart c = true ∧ ∀ x ∈ cs, isNamePart x = true

/-- What a reader guarantees about a single token. -/
def TokenKind.Lexical : TokenKind → Prop
  | name text => IsName text
  | int n => n ≠ Int64.minValue
  | comment text => '\n' ∉ text.toList
  | _ => True

/-- Every token of a list is well-formed. -/
def LexicalTokens (ts : List Token) : Prop := ∀ t ∈ ts, t.kind.Lexical

namespace LexicalTokens

theorem nil : LexicalTokens [] := fun _ h => nomatch h

theorem cons {t : Token} {ts : List Token} (h : t.kind.Lexical) (hs : LexicalTokens ts) :
    LexicalTokens (t :: ts) := by
  intro u hu
  rcases List.mem_cons.1 hu with rfl | hu
  · exact h
  · exact hs u hu

theorem append {ts us : List Token} (h : LexicalTokens ts) (h' : LexicalTokens us) :
    LexicalTokens (ts ++ us) := by
  intro u hu
  rcases List.mem_append.1 hu with hu | hu
  · exact h u hu
  · exact h' u hu

theorem replicate {n : Nat} {t : Token} (h : t.kind.Lexical) :
    LexicalTokens (List.replicate n t) := by
  intro u hu
  rw [List.eq_of_mem_replicate hu]
  exact h

end LexicalTokens

theorem ofNat_ne_minValue {n : Nat} (h : n ≤ 9223372036854775807) :
    Int64.ofNat n ≠ Int64.minValue := by
  intro heq
  have := congrArg Int64.toInt heq
  rw [Int64.toInt_ofNat_of_lt (by omega)] at this
  simp at this

namespace Reader

theorem lexical_integer {r r' : Reader} {kind : TokenKind} (h : r.integer = .ok (kind, r')) :
    kind.Lexical := by
  unfold integer at h
  dsimp only at h
  split at h
  · cases h
  · rename_i hle
    have hn := ofNat_ne_minValue (Nat.le_of_not_lt hle)
    repeat' split at h
    all_goals cases h
    all_goals exact hn

theorem lexical_operator {ops : List String} {r r' : Reader} {kind : TokenKind}
    (h : r.operator ops = .ok (kind, r')) : kind.Lexical := by
  unfold operator at h
  split at h
  · cases h
    trivial
  · split at h <;> cases h

theorem isName_takeWhile {c : Char} {rest : List Char} (hc : isNameStart c = true) :
    IsName (String.ofList ((c :: rest).takeWhile isNamePart)) := by
  rw [List.takeWhile_cons, if_pos (isNamePart_of_isNameStart hc)]
  refine ⟨c, rest.takeWhile isNamePart, by simp, hc, fun x hx => ?_⟩
  exact List.mem_takeWhile_imp hx

/-- Every token that is read is well-formed. -/
theorem lexical_token {ops : List String} {r r' : Reader} {kind : TokenKind}
    (h : r.token ops = .ok (kind, r')) : kind.Lexical := by
  unfold token at h
  split at h
  · rename_i c rest hr
    split at h
    · exact lexical_integer h
    · split at h
      · obtain ⟨⟨text, r''⟩, -, h⟩ := bind_eq_ok_iff.1 h
        cases h
        trivial
      · split at h
        · rename_i hc
          simp only [takeWhile, hr, Except.ok.injEq, Prod.mk.injEq] at h
          rw [← h.1]
          exact isName_takeWhile hc
        · exact lexical_operator h
  · exact lexical_operator h

theorem newline_not_mem_line (r : Reader) : '\n' ∉ r.line.1.toList := by
  simp only [line, takeWhile, String.toList_ofList, List.mem_filter]
  rintro ⟨hmem, -⟩
  have := List.mem_takeWhile_imp hmem
  simp at this

end Reader

namespace Braced

theorem lexical_scan {r : Reader} {ts : List Token} (h : scan r = .ok ts) : LexicalTokens ts := by
  fun_induction scan r generalizing ts with
  | case1 r _ =>
    cases h
    exact .cons trivial .nil
  | case2 _ _ _ ih => exact ih h
  | case3 => cases h
  | case4 _ _ _ _ _ ih => exact ih h
  | case5 _ _ _ _ _ _ _ ih => exact ih h
  | case6 => simp at h
  | case7 r _ _ _ _ _ _ kind after ht ih =>
    obtain ⟨us, hus, h⟩ := bind_eq_ok_iff.1 h
    cases h
    exact .cons (Reader.lexical_token ht) (ih hus)

/-- Every token of a source is well-formed. -/
theorem lexical_tokens {source : String} {ts : List Token} (h : tokens source = .ok ts) :
    LexicalTokens ts := lexical_scan h

end Braced
namespace Indented

theorem lexical_align {w : Nat} {indents indents' : List Nat} {p : Position} {ts : List Token}
    (h : align w indents p = .ok (ts, indents')) : LexicalTokens ts := by
  obtain ⟨-, rfl, -⟩ | ⟨closed, -, rfl, -⟩ := align_cases h
  · exact .cons trivial .nil
  · exact .replicate trivial

theorem lexical_lineEnd (pending : Bool) (p : Position) : LexicalTokens (lineEnd pending p) := by
  cases pending with
  | false => exact .nil
  | true => exact .cons trivial .nil

theorem lexical_finish (indents : List Nat) (pending : Bool) (p : Position) :
    LexicalTokens (finish indents pending p) := by
  refine .append (.append (lexical_lineEnd pending p) (.replicate ?_)) (.cons ?_ .nil)
  · trivial
  · trivial

theorem lexical_scan {place : Place} {indents : List Nat} {r : Reader} {ts : List Token}
    (h : scan place indents r = .ok ts) : LexicalTokens ts := by
  fun_induction scan place indents r generalizing ts with
  | case1 =>
    cases h
    exact lexical_finish _ _ _
  | case2 _ _ _ _ ih => exact ih h
  | case3 indents r _ _ ih =>
    obtain ⟨us, hus, h⟩ := bind_eq_ok_iff.1 h
    cases h
    exact .cons (Reader.newline_not_mem_line _) (ih hus)
  | case4 _ _ _ _ _ ih =>
    obtain ⟨⟨layout, indents'⟩, hl, h⟩ := bind_eq_ok_iff.1 h
    obtain ⟨us, hus, h⟩ := bind_eq_ok_iff.1 h
    cases h
    exact (lexical_align hl).append (ih _ hus)
  | case5 =>
    cases h
    exact lexical_finish _ _ _
  | case6 _ _ pending _ _ ih =>
    obtain ⟨us, hus, h⟩ := bind_eq_ok_iff.1 h
    cases h
    exact (lexical_lineEnd _ _).append (ih hus)
  | case7 _ _ _ _ _ _ _ ih => exact ih h
  | case8 _ _ _ _ _ _ ih => exact ih h
  | case9 _ _ _ _ _ _ ih => exact ih h
  | case10 _ _ _ _ _ _ _ _ _ _ _ ih => exact ih h
  | case11 => cases h
  | case12 _ _ _ _ _ _ _ _ _ _ _ _ _ ht ih =>
    obtain ⟨us, hus, h⟩ := bind_eq_ok_iff.1 h
    cases h
    exact .cons (Reader.lexical_token ht) (ih hus)

/-- Every token of a source is well-formed. -/
theorem lexical_tokens {source : String} {ts : List Token} (h : tokens source = .ok ts) :
    LexicalTokens ts := lexical_scan h

end Indented

/-! ### Expressions -/

/-- Whether an expression is an integer. -/
def Expr.IsInteger : Expr → Prop
  | literal (.int _) => True
  | _ => False

mutual

/-- What both grammars guarantee about an expression. -/
def Expr.WellFormed : Expr → Prop
  | .literal value => value ≠ .int Int64.minValue
  | .name x => IsName x
  | .list items => Expr.AllWellFormed items
  | .emptySet => True
  | .setOf source => source.WellFormed
  | .emptyMap => True
  | .mapOf source => source.WellFormed
  | .unary .not operand => operand.WellFormed
  | .unary .negate operand => ¬operand.IsInteger ∧ operand.WellFormed
  | .binary _ lhs rhs => lhs.WellFormed ∧ rhs.WellFormed
  | .logical _ lhs rhs => lhs.WellFormed ∧ rhs.WellFormed
  | .call f args => IsName f ∧ f ≠ "range" ∧ Expr.AllWellFormed args
  | .builtin _ args => Expr.AllWellFormed args
  | .capability c args => args.length = c.arity ∧ Expr.AllWellFormed args
  | .method receiver m args =>
    (∀ name, m = .other name → IsName name) ∧ receiver.WellFormed ∧ Expr.AllWellFormed args
  | .index object i => object.WellFormed ∧ i.WellFormed
  | .attribute object key => IsName key ∧ object.WellFormed

/-- Every expression of a list is well-formed. -/
def Expr.AllWellFormed : List Expr → Prop
  | [] => True
  | e :: rest => e.WellFormed ∧ Expr.AllWellFormed rest

end

theorem Expr.allWellFormed_iff {es : List Expr} :
    Expr.AllWellFormed es ↔ ∀ e ∈ es, e.WellFormed := by
  induction es with
  | nil => simp [Expr.AllWellFormed]
  | cons e rest ih => simp [Expr.AllWellFormed, ih]

theorem Expr.WellFormed.binary {op : BinaryOp} {lhs rhs : Expr} (hl : lhs.WellFormed)
    (hr : rhs.WellFormed) : (Expr.binary op lhs rhs).WellFormed := ⟨hl, hr⟩

theorem Expr.WellFormed.logical {op : LogicalOp} {lhs rhs : Expr} (hl : lhs.WellFormed)
    (hr : rhs.WellFormed) : (Expr.logical op lhs rhs).WellFormed := ⟨hl, hr⟩

/-! ### Statements -/

/-- The names of a pattern are spelled as names. -/
def Pattern.WellFormed (p : Pattern) : Prop := ∀ x ∈ p.names, IsName x

/-- The operators of assignments. -/
def assignable : List (Option BinaryOp) :=
  [none, some .add, some .sub, some .mul, some .div, some .rem]

/-- What both grammars guarantee about a place that is assigned to. Several names are assigned to
at once only without an operator. -/
def Target.WellFormed (op : Option BinaryOp) : Target → Prop
  | name x => IsName x
  | index object i => object.WellFormed ∧ i.WellFormed
  | tuple names => op = none ∧ ∀ x ∈ names, IsName x

/-- An optional expression is well-formed if there is one. -/
def Expr.OptionWellFormed (e : Option Expr) : Prop := ∀ x, e = some x → x.WellFormed

mutual

/-- What the grammar of a dialect guarantees about a statement with given surroundings. Only the
braced dialect has constants and declarations without a value. -/
def Stmt.WellFormed (d : Dialect) (around : Surroundings) : Stmt → Prop
  | .comment text => '\n' ∉ text.toList
  | .function f params body =>
    IsName f ∧ (∀ x ∈ params, IsName x) ∧ params.Nodup ∧ Stmt.AllWellFormed d .function body
  | .declare pattern value constant =>
    pattern.WellFormed ∧ Expr.OptionWellFormed value ∧
      (value = none → d = .braced ∧ constant = false ∧ ∃ x, pattern = .single x) ∧
      (constant = true → d = .braced)
  | .assign target op value => op ∈ assignable ∧ target.WellFormed op ∧ value.WellFormed
  | .expr value => value.WellFormed
  | .cond arms => (∃ condition body rest, arms = .arm condition body rest) ∧
    arms.WellFormed d around
  | .while condition body => condition.WellFormed ∧ Stmt.AllWellFormed d around.loop body
  | .forEach pattern iterable body =>
    pattern.WellFormed ∧ iterable.WellFormed ∧ Stmt.AllWellFormed d around.loop body
  | .return value => around.inFunction = true ∧ Expr.OptionWellFormed value
  | .break => around.inLoop = true
  | .continue => around.inLoop = true
  | .throw className message => IsName className ∧ message.WellFormed

/-- Every statement of a list is well-formed. -/
def Stmt.AllWellFormed (d : Dialect) (around : Surroundings) : List Stmt → Prop
  | [] => True
  | stmt :: rest => stmt.WellFormed d around ∧ Stmt.AllWellFormed d around rest

/-- Every arm of a conditional statement is well-formed. -/
def Arms.WellFormed (d : Dialect) (around : Surroundings) : Arms → Prop
  | .done => True
  | .otherwise body => Stmt.AllWellFormed d around body
  | .arm condition body rest =>
    condition.WellFormed ∧ Stmt.AllWellFormed d around body ∧ rest.WellFormed d around

end

theorem Stmt.allWellFormed_iff {d : Dialect} {around : Surroundings} {stmts : List Stmt} :
    Stmt.AllWellFormed d around stmts ↔ ∀ stmt ∈ stmts, stmt.WellFormed d around := by
  induction stmts with
  | nil => simp [Stmt.AllWellFormed]
  | cons stmt rest ih => simp [Stmt.AllWellFormed, ih]

/-- A condition and the body that it guards are well-formed. -/
def GuardedWellFormed (d : Dialect) (around : Surroundings) (arm : Expr × List Stmt) : Prop :=
  arm.1.WellFormed ∧ Stmt.AllWellFormed d around arm.2

theorem Arms.wellFormed_ofList {d : Dialect} {around : Surroundings}
    {arms : List (Expr × List Stmt)} {last : Option (List Stmt)}
    (harms : ∀ arm ∈ arms, GuardedWellFormed d around arm)
    (hlast : ∀ body, last = some body → Stmt.AllWellFormed d around body) :
    (Arms.ofList arms last).WellFormed d around := by
  induction arms with
  | nil =>
    cases last with
    | none => trivial
    | some body => exact hlast body rfl
  | cons arm rest ih =>
    obtain ⟨hc, hb⟩ := harms arm List.mem_cons_self
    exact ⟨hc, hb, ih fun a ha => harms a (List.mem_cons_of_mem _ ha)⟩

end Labyrinth
