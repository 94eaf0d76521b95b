import Labyrinth.Language.Read
import Labyrinth.Text.Lines

/-!
# Printing in the braced dialect

Every tree can be **printed** in the braced dialect, one statement after the other on lines of
its own. Parentheses stand only where an operand is held together more loosely than its place
demands.

The indented dialect does not tell a declaration from an assignment. A value is therefore
printed as a declaration unless its names are **bound** for certain: on every path that leads to
the statement within the same function. Both forms then bind the same name, and a name that may
be unbound still falls back to that of the top level when it is read.

## Main results

* `mem_bindNames`: the names that are bound after a declaration.
* `normalize`: the braced form of a program of the indented dialect.
-/

namespace Labyrinth.Braced

/-! ### Expressions -/

/-- A character as it stands in a literal. -/
def escape : Char → List Char
  | '"' => ['\\', '"']
  | '\\' => ['\\', '\\']
  | '\n' => ['\\', 'n']
  | '\t' => ['\\', 't']
  | '\r' => ['\\', 'r']
  | '\x00' => ['\\', '0']
  | c => [c]

/-- A string as a literal. -/
def quote (s : String) : String := "\"" ++ String.ofList (s.toList.flatMap escape) ++ "\""

/-- A constant. -/
def literalText : Literal → String
  | .null => "null"
  | .bool b => if b then "true" else "false"
  | .int n => toString n
  | .str s => quote s

/-- How tightly the operands of an operator are held together. -/
def operatorTightness : BinaryOp → Nat
  | .eq | .ne => 3
  | .lt | .le | .gt | .ge => 4
  | .add | .sub => 5
  | .mul | .div | .rem => 6

/-- How tightly the parts of an expression are held together. -/
def tightness : Expr → Nat
  | .logical .or _ _ => 1
  | .logical .and _ _ => 2
  | .binary op _ _ => operatorTightness op
  | .unary _ _ => 7
  | .literal (.int n) => if n < 0 then 7 else 8
  | .capability (.move _) _ => 7
  | _ => 8

/-- The spelling of an operator. -/
def operatorText : BinaryOp → String
  | .eq => "==="
  | .ne => "!=="
  | op => op.symbol

/-- The callee of a built-in function. -/
def builtinText : Builtin → String
  | .len => "len"
  | .str => "String"
  | .range => "range"
  | .abs => "Math.abs"
  | .min => "Math.min"
  | .max => "Math.max"
  | .print => "console.log"

/-- An expression's text, in parentheses if it is held together less tightly than demanded. -/
def enclose (least : Nat) (e : Expr) (text : String) : String :=
  if tightness e < least then "(" ++ text ++ ")" else text

mutual

/-- An expression without parentheses around it. -/
def exprText : Expr → String
  | .literal value => literalText value
  | .name x => x
  | .list items => "[" ++ argsText items ++ "]"
  | .emptySet => "new Set()"
  | .setOf source => "new Set(" ++ exprText source ++ ")"
  | .emptyMap => "new Map()"
  | .mapOf source => "new Map(" ++ exprText source ++ ")"
  | .unary .not operand => "!" ++ enclose 7 operand (exprText operand)
  | .unary .negate operand => "-" ++ enclose 7 operand (exprText operand)
  | .binary op lhs rhs =>
    enclose (operatorTightness op) lhs (exprText lhs) ++ " " ++ operatorText op ++ " " ++
      enclose (operatorTightness op + 1) rhs (exprText rhs)
  | .logical .and lhs rhs =>
    enclose 2 lhs (exprText lhs) ++ " && " ++ enclose 3 rhs (exprText rhs)
  | .logical .or lhs rhs =>
    enclose 1 lhs (exprText lhs) ++ " || " ++ enclose 2 rhs (exprText rhs)
  | .call f args => f ++ "(" ++ argsText args ++ ")"
  | .builtin .len [target] => enclose 8 target (exprText target) ++ ".length"
  | .builtin f args => builtinText f ++ "(" ++ argsText args ++ ")"
  | .capability (.move d) args =>
    "await " ++ (Capability.move d).bracedName ++ "(" ++ argsText args ++ ")"
  | .capability c args => c.bracedName ++ "(" ++ argsText args ++ ")"
  | .method receiver m args =>
    enclose 8 receiver (exprText receiver) ++ "." ++ m.bracedName ++ "(" ++ argsText args ++ ")"
  | .index object i => enclose 8 object (exprText object) ++ "[" ++ exprText i ++ "]"
  | .attribute object key => enclose 8 object (exprText object) ++ "." ++ key

/-- Expressions with commas between them. -/
def argsText : List Expr → String
  | [] => ""
  | [e] => exprText e
  | e :: rest => exprText e ++ ", " ++ argsText rest

end

/-! ### Statements -/

/-- Names with commas between them. -/
def namesText (names : List String) : String := ", ".intercalate names

/-- The names that a declaration or a loop binds. -/
def patternText : Pattern → String
  | .single x => x
  | .tuple names => "[" ++ namesText names ++ "]"

/-- A place that is assigned to. -/
def targetText : Target → String
  | .name x => x
  | .index object i => enclose 8 object (exprText object) ++ "[" ++ exprText i ++ "]"
  | .tuple names => "[" ++ namesText names ++ "]"

/-- The sign of an assignment. -/
def assignmentText : Option BinaryOp → String
  | some op => op.symbol ++ "="
  | none => "="

/-- A line of text, indented by two blanks for every level. -/
def line (depth : Nat) (text : String) : String :=
  String.ofList (List.replicate (2 * depth) ' ') ++ text

/-- The names that are bound after further ones have been bound. -/
def bindNames : List String → (bound : List String) → List String
  | [], bound => bound
  | x :: names, bound => bindNames names (if x ∈ bound then bound else x :: bound)

theorem mem_bindNames {names bound : List String} {x : String} :
    x ∈ bindNames names bound ↔ x ∈ names ∨ x ∈ bound := by
  induction names generalizing bound with
  | nil => simp [bindNames]
  | cons y names ih => grind [bindNames]

/-- The names that are bound on both of two paths. -/
def meet (xs ys : List String) : List String := xs.filter (· ∈ ys)

mutual

/-- The lines of a statement, and the names that are bound after it. -/
def stmtLines (depth : Nat) (bound : List String) : Stmt → List String × List String
  | .comment text => ([line depth ("//" ++ text)], bound)
  | .function f params body =>
    let (lines, _) := stmtsLines (depth + 1) params body
    let head := "function " ++ f ++ "(" ++ namesText params ++ ") \x7b"
    (line depth head :: lines ++ [line depth "\x7d"], bound)
  | .declare pattern (some value) constant =>
    let word :=
      if constant then "const " else if pattern.names.all (· ∈ bound) then "" else "let "
    ([line depth (word ++ patternText pattern ++ " = " ++ exprText value ++ ";")],
      bindNames pattern.names bound)
  | .declare pattern none _ =>
    ([line depth ("let " ++ namesText pattern.names ++ ";")], bindNames pattern.names bound)
  | .assign target op value =>
    ([line depth (targetText target ++ " " ++ assignmentText op ++ " " ++ exprText value ++ ";")],
      bound)
  | .expr value => ([line depth (exprText value ++ ";")], bound)
  | .cond arms =>
    let (lines, after) := armsLines depth bound "if" arms
    (lines ++ [line depth "\x7d"], after.getD bound)
  | .while condition body =>
    let (lines, _) := stmtsLines (depth + 1) bound body
    (line depth ("while (" ++ exprText condition ++ ") \x7b") ::
      lines ++ [line depth "\x7d"], bound)
  | .forEach pattern iterable body =>
    let (lines, _) := stmtsLines (depth + 1) (bindNames pattern.names bound) body
    let head := "for (const " ++ patternText pattern ++ " of " ++ exprText iterable ++ ") \x7b"
    (line depth head :: lines ++ [line depth "\x7d"], bound)
  | .return none => ([line depth "return;"], bound)
  | .return (some value) => ([line depth ("return " ++ exprText value ++ ";")], bound)
  | .break => ([line depth "break;"], bound)
  | .continue => ([line depth "continue;"], bound)
  | .throw className message =>
    ([line depth ("throw new " ++ className ++ "(" ++ exprText message ++ ");")], bound)

/-- The lines of several statements, and the names that are bound after them. -/
def stmtsLines (depth : Nat) (bound : List String) : List Stmt → List String × List String
  | [] => ([], bound)
  | stmt :: rest =>
    let (first, bound) := stmtLines depth bound stmt
    let (further, bound) := stmtsLines depth bound rest
    (first ++ further, bound)

/-- The lines of the arms of a conditional statement, without the last brace, and the names that
are bound after every arm, if one of them is always taken. -/
def armsLines (depth : Nat) (bound : List String) (word : String) :
    Arms → List String × Option (List String)
  | .done => ([], none)
  | .otherwise body =>
    let (lines, after) := stmtsLines (depth + 1) bound body
    (line depth "\x7d else \x7b" :: lines, some after)
  | .arm condition body rest =>
    let (lines, after) := stmtsLines (depth + 1) bound body
    let (further, others) := armsLines depth bound "\x7d else if" rest
    (line depth (word ++ " (" ++ exprText condition ++ ") \x7b") :: lines ++ further,
      others.map (meet after))

end

/-- The text of a program. -/
def print (body : List Stmt) : String := Text.unlines (stmtsLines 0 [] body).1

/-- The braced form of a source in the indented dialect. -/
def normalize (source : String) : Except SyntaxError String := print <$> Indented.parse source

end Labyrinth.Braced
