import Labyrinth.Language.Indented.Tokens
import Labyrinth.Language.Parser

/-!
# The grammar of the indented dialect

Programs of the indented dialect are read by recursive descent. The levels of precedence are
parsers on top of each other, from `disjunction` down to `atom`; they are given the parser for
whole expressions, `nested`, and the knot is tied in `exprAt`. Statements are treated in the
same way: `statement` is given the parser for the statements one level further down, and
`statementAt` ties the knot.

## Main results

* `parse`: the statements of a program, or the first error in it.
-/

namespace Labyrinth.Indented

open Labyrinth.Parser

/-- The words that are no names. -/
def keywords : List String := [
  "def", "for", "in", "while", "if", "elif", "else", "return", "break", "continue", "pass", "and",
  "or", "not", "is", "True", "False", "None", "raise"]

/-- The operators of augmented assignments. -/
def augmented : List (String × BinaryOp) := [
  ("+=", .add), ("-=", .sub), ("*=", .mul), ("//=", .div), ("/=", .div), ("%=", .rem)]

/-! ### Calls -/

/-- Whether an expression is the integer zero. -/
def isZero : Expr → Bool
  | .literal (.int n) => n == 0
  | _ => false

/-- The method with a given spelling, and the arguments that it is called with. Taking from and
inserting at position zero are methods of their own. -/
def methodFor (name : String) (args : List Expr) : Method × List Expr :=
  match name, args with
  | "append", _ => (.push, args)
  | "pop", [i] => if isZero i then (.shift, []) else (.pop, args)
  | "pop", _ => (.pop, args)
  | "insert", [i, x] => if isZero i then (.unshift, [x]) else (.other name, args)
  | "add", _ => (.add, args)
  | "remove", _ => (.remove, args)
  | "discard", _ => (.discard, args)
  | "get", _ => (.get, args)
  | "keys", _ => (.keys, args)
  | "values", _ => (.values, args)
  | "copy", _ => (.copy, args)
  | "index", _ => (.indexOf, args)
  | _, _ => (.other name, args)

/-- The call of a name that belongs neither to a capability nor to a built-in function. -/
def namedCall (name : String) (args : List Expr) : Expr :=
  match name, args with
  | "set", [] => .emptySet
  | "set", [source] => .setOf source
  | "dict", [] => .emptyMap
  | "list", [source] => .method source .copy []
  | _, _ => .call name args

/-- The call of an expression, whose opening bracket stands at `p`. -/
def call (callee : Expr) (args : List Expr) (p : Position) : Except SyntaxError Expr :=
  match callee with
  | .name name =>
    match Capability.ofIndented? name with
    | some c => do
      checkArity p c.indentedName c.arity args
      return .capability c args
    | none =>
      match Builtin.ofName? name with
      | some b => .ok (.builtin b args)
      | none => .ok (namedCall name args)
  | .attribute object name =>
    let (method, args) := methodFor name args
    .ok (.method object method args)
  | _ => .error ⟨p, .notCallable⟩

/-! ### Expressions -/

section Levels

variable (nested : Nat → Parser Expr)

/-- Reads the entries of a map that follow the first one. -/
def entries (room : Nat) : Parser (List Expr) :=
  collect do
    if ← eat (.op ",") then
      if ← check (.op "\x7d") then
        return .stop
      else
        let key ← nested room
        expectOp ":"
        let value ← nested room
        return .more (.list [key, value])
    else
      return .stop

/-- Reads what follows an opening brace: a map or a set. -/
def braces (room : Nat) : Parser Expr := do
  if ← eat (.op "\x7d") then
    return .emptyMap
  let first ← nested room
  if ← eat (.op ":") then
    let value ← nested room
    let rest ← entries nested room
    expectOp "\x7d"
    return .mapOf (.list (.list [first, value] :: rest))
  if ← eat (.op ",") then
    let rest ← separated "\x7d" (nested room)
    return .setOf (.list (first :: rest))
  expectOp "\x7d"
  return .setOf (.list [first])

/-- Reads what follows an opening parenthesis: an expression or a list. -/
def parentheses (room : Nat) : Parser Expr := do
  if ← eat (.op ")") then
    return .list []
  let first ← nested room
  if ← eat (.op ")") then
    return first
  let rest ← collect do
    if ← eat (.op ",") then
      if ← check (.op ")") then
        return .stop
      else
        return .more (← nested room)
    else
      return .stop
  expectOp ")"
  return .list (first :: rest)

/-- Reads a word: a constant or a name. -/
def word (text : String) : Parser Expr := do
  match text with
  | "True" => advance; return .literal (.bool true)
  | "False" => advance; return .literal (.bool false)
  | "None" => advance; return .literal .null
  | _ =>
    if keywords.contains text then
      fail (.unexpectedKeyword text)
    else
      advance
      return .name text

/-- Reads an expression in brackets of any kind. -/
def bracketed (opening : String) (room : Nat) : Parser Expr := do
  match opening with
  | "(" => advance; parentheses nested room
  | "[" => advance; return .list (← separated "]" (nested room))
  | "\x7b" => advance; braces nested room
  | _ => failFound .expectedExpression

/-- Reads an expression that is no call and has no operator. -/
def atom (room : Nat) : Parser Expr := do
  match ← peek with
  | .int n => advance; return .literal (.int n)
  | .str s => advance; return .literal (.str s)
  | .name text => word text
  | .op opening => bracketed nested opening room
  | _ => failFound .expectedExpression

/-- Reads one call, subscript or attribute of an expression, if one follows. -/
def suffix (room : Nat) (e : Expr) : Parser (Option Expr) := do
  match ← peek with
  | .op "(" =>
    descend room
    let p ← position
    advance
    let args ← separated ")" (nested (room - 1))
    return some (← call e args p)
  | .op "[" =>
    descend room
    advance
    let i ← nested (room - 1)
    expectOp "]"
    return some (.index e i)
  | .op "." =>
    descend room
    advance
    return some (.attribute e (← identifier []))
  | _ => return none

/-- Reads the calls, subscripts and attributes that follow an expression. -/
def suffixes : Nat → Expr → Parser Expr
  | 0, e => do
    match ← suffix nested 0 e with
    | none => return e
    | some e => return e
  | room + 1, e => do
    match ← suffix nested (room + 1) e with
    | none => return e
    | some e => suffixes room e

/-- Reads an expression without operators. -/
def postfixed (room : Nat) : Parser Expr := do
  let e ← atom nested room
  suffixes nested room e

/-- Reads an expression that may begin with signs. -/
def signed : Nat → Parser Expr
  | 0 => do
    if ← eat (.op "-") then fail .nestingTooDeep
    else if ← eat (.op "+") then fail .nestingTooDeep
    else postfixed nested 0
  | room + 1 => do
    if ← eat (.op "-") then return negate (← signed room)
    else if ← eat (.op "+") then signed room
    else postfixed nested (room + 1)

/-- Reads products, quotients and remainders. -/
def term : Nat → Parser Expr :=
  chain (oneOf [("*", .mul), ("//", .div), ("/", .div), ("%", .rem)]) (signed nested) .binary

/-- Reads sums and differences. -/
def sum : Nat → Parser Expr :=
  chain (oneOf [("+", .add), ("-", .sub)]) (term nested) .binary

end Levels

/-- The test whether a collection has an element. -/
def membership (element collection : Expr) : Expr := .method collection .has [element]

/-- Reads an operator that compares two operands, and yields the comparison that it makes. -/
def comparator : Parser (Option (Expr → Expr → Expr)) := do
  match ← peek with
  | .op "==" => advance; return some (.binary .eq)
  | .op "!=" => advance; return some (.binary .ne)
  | .op "<" => advance; return some (.binary .lt)
  | .op "<=" => advance; return some (.binary .le)
  | .op ">" => advance; return some (.binary .gt)
  | .op ">=" => advance; return some (.binary .ge)
  | .name "in" => advance; return some membership
  | .name "not" =>
    if (← peekSecond) == .name "in" then
      advance
      advance
      return some fun element collection => .unary .not (membership element collection)
    else
      return none
  | .name "is" =>
    advance
    return some (.binary (if ← eat (.name "not") then .ne else .eq))
  | _ => return none

section Levels

variable (nested : Nat → Parser Expr)

/-- Reads a comparison, of which there is at most one. -/
def comparison (room : Nat) : Parser Expr := do
  let lhs ← sum nested room
  match ← comparator with
  | none => return lhs
  | some combine =>
    let rhs ← sum nested room
    match ← comparator with
    | none => return combine lhs rhs
    | some _ => fail .chainedComparison

/-- Reads a negation. -/
def negation : Nat → Parser Expr
  | 0 => do
    if ← eat (.name "not") then fail .nestingTooDeep
    else comparison nested 0
  | room + 1 => do
    if ← eat (.name "not") then return .unary .not (← negation room)
    else comparison nested (room + 1)

/-- Reads a conjunction. -/
def conjunction : Nat → Parser Expr :=
  chain (wordOperator "and" .and) (negation nested) .logical

/-- Reads a disjunction. -/
def disjunction : Nat → Parser Expr :=
  chain (wordOperator "or" .or) (conjunction nested) .logical

end Levels

/-- Reads an expression with the given room, in which at most `depth` expressions are nested. -/
def exprAt : (depth room : Nat) → Parser Expr
  | 0, _ => fail .nestingTooDeep
  | depth + 1, room => do
    descend room
    disjunction (exprAt depth) (room - 1)

/-- Reads an expression. As every nested expression has less room than the one around it, no
more than `room` of them can be nested. -/
def expr (room : Nat) : Parser Expr := exprAt (room + 1) room

/-- Reads an expression, or several expressions with commas between them, which make a list. -/
def exprList (room : Nat) : Parser Expr := do
  let first ← expr room
  if ← check (.op ",") then
    let rest ← collect do
      if ← eat (.op ",") then
        match ← peek with
        | .newline => return .stop
        | .eof => return .stop
        | _ => return .more (← expr room)
      else
        return .stop
    return .list (first :: rest)
  else
    return first

/-! ### Statements on one line -/

/-- Reads the names that follow the first one of several, each after a comma. -/
def furtherNames : Parser (List String) :=
  collect do
    if ← eat (.op ",") then
      return .more (← identifier keywords)
    else
      return .stop

/-- Reads the names bound by a loop. -/
def loopPattern : Parser Pattern := do
  let first ← identifier keywords
  if ← check (.op ",") then
    return .tuple (first :: (← furtherNames))
  else
    return .single first

/-- Reads a statement that begins with an expression. -/
def assignment (room : Nat) : Parser Stmt := do
  let p ← position
  let first ← expr room
  if ← check (.op ",") then
    match first with
    | .name name =>
      let names ← furtherNames
      expectOp "="
      return .declare (.tuple (name :: names)) (some (← exprList room)) false
    | _ => fail .unpackIntoExpression
  else if ← eat (.op "=") then
    let value ← exprList room
    match first with
    | .name name => return .declare (.single name) (some value) false
    | .index object i => return .assign (.index object i) none value
    | _ => failAt p .assignToExpression
  else
    match ← oneOf augmented with
    | some op =>
      let value ← expr room
      match first with
      | .name name => return .assign (.name name) (some op) value
      | .index object i => return .assign (.index object i) (some op) value
      | _ => failAt p .assignToExpression
    | none => return .expr first

/-- Reads a statement without a block of its own, if it is more than an empty one. -/
def simple (room : Nat) (around : Surroundings) : Parser (Option Stmt) := do
  match ← peek with
  | .name "pass" => advance; return none
  | .name "break" =>
    if around.inLoop then advance; return some .break
    else fail (.outsideLoop "break")
  | .name "continue" =>
    if around.inLoop then advance; return some .continue
    else fail (.outsideLoop "continue")
  | .name "return" =>
    if around.inFunction then
      advance
      match ← peek with
      | .newline => return some (.return none)
      | .eof => return some (.return none)
      | .dedent => return some (.return none)
      | _ => return some (.return (some (← exprList room)))
    else
      fail .returnOutsideFunction
  | .name "raise" =>
    advance
    let className ← identifier keywords
    expectOp "("
    let message ← expr room
    expectOp ")"
    return some (.throw className message)
  | _ => return some (← assignment room)

/-- Reads a line with a statement on it. -/
def simpleLine (room : Nat) (around : Surroundings) : Parser (List Stmt) := do
  let stmt ← simple room around
  match ← peek with
  | .newline => advance; return stmt.toList
  | .eof => return stmt.toList
  | .dedent => return stmt.toList
  | _ => failFound .expectedLineEnd

/-! ### Blocks -/

/-- Reads the comments that come next. -/
def comments : Parser (List Stmt) :=
  collect do
    match ← peek with
    | .comment text => advance; return .more (.comment text)
    | _ => return .stop

section Blocks

variable (room : Nat) (inner : Surroundings → Parser (List Stmt))

/-- Reads the body of a block: one line, or the indented lines that follow. -/
def suite (around : Surroundings) : Parser (List Stmt) := do
  if (← peek) == .newline then
    advance
    let leading ← comments
    if ← eat .indent then
      let body ← collect do
        match ← peek with
        | .dedent => return .stop
        | .eof => return .stop
        | _ => return .more (← inner around)
      let _ ← eat .dedent
      return leading ++ body.flatten
    else
      fail .expectedBlock
  else
    simpleLine (room - 1) around

/-- Reads a block one level further down. -/
def block (around : Surroundings) : Parser (List Stmt) := do
  expectOp ":"
  descend room
  suite room inner around

/-- Reads the definition of a function. -/
def function : Parser Stmt := do
  advance
  let name ← functionName keywords
  let params ← parameters keywords
  return .function name params (← block room inner .function)

/-- Reads a loop over the elements of a collection. -/
def forEach (around : Surroundings) : Parser Stmt := do
  advance
  let pattern ← loopPattern
  expectWord "in"
  let iterable ← expr room
  return .forEach pattern iterable (← block room inner around.loop)

/-- Reads a loop with a condition. -/
def whileLoop (around : Surroundings) : Parser Stmt := do
  advance
  let condition ← expr room
  return .while condition (← block room inner around.loop)

/-- Reads a condition and the block that it guards. -/
def guarded (around : Surroundings) : Parser (Expr × List Stmt) := do
  let condition ← expr room
  return (condition, ← block room inner around)

/-- Reads a conditional statement. -/
def conditional (around : Surroundings) : Parser Stmt := do
  advance
  let first ← guarded room inner around
  let further ← collect do
    if ← eat (.name "elif") then
      return .more (← guarded room inner around)
    else
      return .stop
  let last ← if ← eat (.name "else") then some <$> block room inner around else pure none
  return .cond (Arms.ofList (first :: further) last)

/-- Reads a statement. -/
def statement (around : Surroundings) : Parser (List Stmt) := do
  match ← peek with
  | .comment text => advance; return [.comment text]
  | .newline => advance; return []
  | .indent => fail .unexpectedIndent
  | .name "def" => return [← function room inner]
  | .name "for" => return [← forEach room inner around]
  | .name "while" => return [← whileLoop room inner around]
  | .name "if" => return [← conditional room inner around]
  | .name "elif" => fail (.unmatchedAlternative "elif")
  | .name "else" => fail (.unmatchedAlternative "else")
  | _ => simpleLine room around

end Blocks

/-- Reads a statement with the given room for the blocks in it. -/
def statementAt : Nat → Surroundings → Parser (List Stmt)
  | 0 => statement 0 fun _ => fail .nestingTooDeep
  | room + 1 => statement (room + 1) (statementAt room)

/-- Reads all statements of a program. -/
def program : Parser (List Stmt) := do
  let stmts ← collect do
    if ← check .eof then return .stop
    else return .more (← statementAt maxNesting .top)
  return stmts.flatten

/-- The statements of a program, or the first error in it. -/
def parse (source : String) : Except SyntaxError (List Stmt) := program.run (tokens source)

end Labyrinth.Indented
