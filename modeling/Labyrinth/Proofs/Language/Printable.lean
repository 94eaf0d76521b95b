import Labyrinth.Proofs.Language.Bound
import Labyrinth.Proofs.Language.WellFormed

/-!
# Trees that can be read again

A tree that is printed in the braced dialect can be read again if its names have no meaning of their
own there, and if nothing in it is spelled like something else. Such trees are **printable**. This
module also tells of what tokens the text of a tree consists, and what is left of a tree that is
read again: all but its comments.

## Main results

* `Stmt.Printable`: the statements that can be read again.
* `Expr.kinds`, `Stmt.kinds`: the tokens of a printed tree.
-/

namespace Labyrinth

open Labyrinth.Braced

/-! ### Printable trees -/

/-- A name without a meaning of its own in the braced dialect. -/
def IsFree (x : String) : Prop := x ∉ keywords ∧ x ≠ "Math" ∧ x ≠ "console"

/-- A function of the program that is not taken for another one. -/
def IsFreeFunction (f : String) : Prop := IsFree f ∧ f ≠ "String" ∧ Capability.ofBraced? f = none

/-- A method that is found by its spelling when it is called with so many arguments. -/
def Method.Printable (arity : Nat) : Method → Prop
  | copy => arity = 0
  | other name => methodFor name arity = .other name
  | _ => True

mutual

/-- An expression that is read as it is printed. -/
def Expr.Printable : Expr → Prop
  | .literal _ => True
  | .name x => IsFree x
  | .list items => Expr.AllPrintable items
  | .emptySet => True
  | .setOf source => source.Printable
  | .emptyMap => True
  | .mapOf source => source.Printable
  | .unary _ operand => operand.Printable
  | .binary _ lhs rhs => lhs.Printable ∧ rhs.Printable
  | .logical _ lhs rhs => lhs.Printable ∧ rhs.Printable
  | .call f args => IsFreeFunction f ∧ Expr.AllPrintable args
  | .builtin function args => (function = .len → args.length = 1) ∧ Expr.AllPrintable args
  | .capability _ args => Expr.AllPrintable args
  | .method receiver m args =>
    m.Printable args.length ∧ receiver.Printable ∧ Expr.AllPrintable args
  | .index object i => object.Printable ∧ i.Printable
  | .attribute object key => key ≠ "length" ∧ object.Printable

/-- Every expression of a list is printable. -/
def Expr.AllPrintable : List Expr → Prop
  | [] => True
  | e :: rest => e.Printable ∧ Expr.AllPrintable rest

end

/-- The names of a pattern are free. -/
def Pattern.Printable (p : Pattern) : Prop := ∀ x ∈ p.names, IsFree x

/-- A place that is read as it is printed. -/
def Target.Printable : Target → Prop
  | name x => IsFree x
  | index object i => object.Printable ∧ i.Printable
  | tuple names => ∀ x ∈ names, IsFree x

/-- An optional expression is printable if there is one. -/
def Expr.OptionPrintable (e : Option Expr) : Prop := ∀ x, e = some x → x.Printable

mutual

/-- A statement that is read as it is printed. -/
def Stmt.Printable : Stmt → Prop
  | .comment _ => True
  | .function f params body => IsFree f ∧ (∀ x ∈ params, IsFree x) ∧ Stmt.AllPrintable body
  | .declare pattern value _ => pattern.Printable ∧ Expr.OptionPrintable value
  | .assign target _ value => target.Printable ∧ value.Printable
  | .expr value => value.Printable
  | .cond arms => arms.Printable
  | .while condition body => condition.Printable ∧ Stmt.AllPrintable body
  | .forEach pattern iterable body =>
    pattern.Printable ∧ iterable.Printable ∧ Stmt.AllPrintable body
  | .return value => Expr.OptionPrintable value
  | .break => True
  | .continue => True
  | .throw className message => IsFree className ∧ message.Printable

/-- Every statement of a list is printable. -/
def Stmt.AllPrintable : List Stmt → Prop
  | [] => True
  | stmt :: rest => stmt.Printable ∧ Stmt.AllPrintable rest

/-- Every arm of a conditional statement is printable. -/
def Arms.Printable : Arms → Prop
  | .done => True
  | .otherwise body => Stmt.AllPrintable body
  | .arm condition body rest =>
    condition.Printable ∧ Stmt.AllPrintable body ∧ rest.Printable

end

/-! ### Trees without comments -/

mutual

/-- What is left of a statement without its comments. -/
def Stmt.uncommented : Stmt → List Stmt
  | .comment _ => []
  | .function f params body => [.function f params (Stmt.allUncommented body)]
  | .cond arms => [.cond arms.uncommented]
  | .while condition body => [.while condition (Stmt.allUncommented body)]
  | .forEach pattern iterable body => [.forEach pattern iterable (Stmt.allUncommented body)]
  | stmt => [stmt]

/-- What is left of several statements without their comments. -/
def Stmt.allUncommented : List Stmt → List Stmt
  | [] => []
  | stmt :: rest => stmt.uncommented ++ Stmt.allUncommented rest

/-- What is left of the arms of a conditional statement without their comments. -/
def Arms.uncommented : Arms → Arms
  | .done => .done
  | .otherwise body => .otherwise (Stmt.allUncommented body)
  | .arm condition body rest => .arm condition (Stmt.allUncommented body) rest.uncommented

end

/-! ### Tokens of printed trees -/

/-- Groups of tokens with commas between them. -/
def commas : List (List TokenKind) → List TokenKind
  | [] => []
  | [ks] => ks
  | ks :: rest => ks ++ .op "," :: commas rest

/-- Tokens in parentheses. -/
def parenthesized (ks : List TokenKind) : List TokenKind := .op "(" :: (ks ++ [.op ")"])

/-- The tokens of an expression, in parentheses if it is held together less tightly than is asked
for. -/
def enclosed (least : Nat) (e : Expr) (ks : List TokenKind) : List TokenKind :=
  if tightness e < least then parenthesized ks else ks

/-- The tokens of a constant. -/
def Literal.kinds : Literal → List TokenKind
  | null => [.name "null"]
  | bool b => [.name (if b then "true" else "false")]
  | int n => if n < 0 then [.op "-", .int (-n)] else [.int n]
  | str s => [.str s]

/-- The tokens of the callee of a built-in function. -/
def Builtin.kinds : Builtin → List TokenKind
  | abs => [.name "Math", .op ".", .name "abs"]
  | min => [.name "Math", .op ".", .name "min"]
  | max => [.name "Math", .op ".", .name "max"]
  | print => [.name "console", .op ".", .name "log"]
  | function => [.name (builtinText function)]

mutual

/-- The tokens of an expression without parentheses around it. -/
def Expr.kinds : Expr → List TokenKind
  | .literal value => value.kinds
  | .name x => [.name x]
  | .list items => .op "[" :: (commas (Expr.eachKinds items) ++ [.op "]"])
  | .emptySet => .name "new" :: .name "Set" :: parenthesized []
  | .setOf source => .name "new" :: .name "Set" :: parenthesized source.kinds
  | .emptyMap => .name "new" :: .name "Map" :: parenthesized []
  | .mapOf source => .name "new" :: .name "Map" :: parenthesized source.kinds
  | .unary .not operand => .op "!" :: enclosed 7 operand operand.kinds
  | .unary .negate operand => .op "-" :: enclosed 7 operand operand.kinds
  | .binary op lhs rhs =>
    enclosed (operatorTightness op) lhs lhs.kinds ++
      .op (operatorText op) :: enclosed (operatorTightness op + 1) rhs rhs.kinds
  | .logical .and lhs rhs => enclosed 2 lhs lhs.kinds ++ .op "&&" :: enclosed 3 rhs rhs.kinds
  | .logical .or lhs rhs => enclosed 1 lhs lhs.kinds ++ .op "||" :: enclosed 2 rhs rhs.kinds
  | .call f args => .name f :: parenthesized (commas (Expr.eachKinds args))
  | .builtin .len [target] => enclosed 8 target target.kinds ++ [.op ".", .name "length"]
  | .builtin function args => function.kinds ++ parenthesized (commas (Expr.eachKinds args))
  | .capability (.move d) args =>
    .name "await" :: .name (Capability.move d).bracedName ::
      parenthesized (commas (Expr.eachKinds args))
  | .capability c args => .name c.bracedName :: parenthesized (commas (Expr.eachKinds args))
  | .method receiver m args =>
    enclosed 8 receiver receiver.kinds ++
      .op "." :: .name m.bracedName :: parenthesized (commas (Expr.eachKinds args))
  | .index object i => enclosed 8 object object.kinds ++ .op "[" :: (i.kinds ++ [.op "]"])
  | .attribute object key => enclosed 8 object object.kinds ++ [.op ".", .name key]

/-- The tokens of each of several expressions. -/
def Expr.eachKinds : List Expr → List (List TokenKind)
  | [] => []
  | e :: rest => e.kinds :: Expr.eachKinds rest

end

/-- The tokens of names with commas between them. -/
def namesKinds (names : List String) : List TokenKind :=
  commas (names.map fun x => [.name x])

/-- The tokens of a pattern. -/
def Pattern.kinds : Pattern → List TokenKind
  | single x => [.name x]
  | tuple names => .op "[" :: (namesKinds names ++ [.op "]"])

/-- The tokens of a place that is assigned to. -/
def Target.kinds : Target → List TokenKind
  | name x => [.name x]
  | index object i => enclosed 8 object object.kinds ++ .op "[" :: (i.kinds ++ [.op "]"])
  | tuple names => .op "[" :: (namesKinds names ++ [.op "]"])

/-- Tokens in braces. -/
def inBraces (ks : List TokenKind) : List TokenKind := .op "\x7b" :: (ks ++ [.op "\x7d"])

mutual

/-- The tokens of a statement. -/
def Stmt.kinds (bound : List String) : Stmt → List TokenKind
  | .comment _ => []
  | .function f params body =>
    .name "function" :: .name f ::
      (parenthesized (namesKinds params) ++ inBraces (Stmt.allKinds params body))
  | .declare pattern (some value) constant =>
    let word := if constant then [.name "const"]
      else if pattern.names.all (· ∈ bound) then [] else [.name "let"]
    word ++ pattern.kinds ++ .op "=" :: (value.kinds ++ [.op ";"])
  | .declare pattern none _ => .name "let" :: (namesKinds pattern.names ++ [.op ";"])
  | .assign target op value =>
    target.kinds ++ .op (assignmentText op) :: (value.kinds ++ [.op ";"])
  | .expr value => value.kinds ++ [.op ";"]
  | .cond arms => (arms.kinds bound).tail
  | .while condition body =>
    .name "while" :: (parenthesized condition.kinds ++ inBraces (Stmt.allKinds bound body))
  | .forEach pattern iterable body =>
    .name "for" ::
      (parenthesized (.name "const" :: (pattern.kinds ++ .name "of" :: iterable.kinds)) ++
        inBraces (Stmt.allKinds (bindNames pattern.names bound) body))
  | .return none => [.name "return", .op ";"]
  | .return (some value) => .name "return" :: (value.kinds ++ [.op ";"])
  | .break => [.name "break", .op ";"]
  | .continue => [.name "continue", .op ";"]
  | .throw className message =>
    .name "throw" :: .name "new" :: .name className ::
      (parenthesized message.kinds ++ [.op ";"])

/-- The tokens of several statements. -/
def Stmt.allKinds (bound : List String) : List Stmt → List TokenKind
  | [] => []
  | stmt :: rest => stmt.kinds bound ++ Stmt.allKinds (stmt.boundAfter bound) rest

/-- The tokens of the arms of a conditional statement, as they follow another arm. -/
def Arms.kinds (bound : List String) : Arms → List TokenKind
  | .done => []
  | .otherwise body => .name "else" :: inBraces (Stmt.allKinds bound body)
  | .arm condition body rest =>
    .name "else" :: .name "if" ::
      (parenthesized condition.kinds ++ inBraces (Stmt.allKinds bound body) ++ rest.kinds bound)

end

end Labyrinth
