import Labyrinth.Language.Braced.Tokens
import Labyrinth.Language.Parser

/-!
# The grammar of the braced dialect

Programs of the braced dialect are read by recursive descent, in levels of precedence from
`disjunction` down to `atom`. The level parsers are given the parser for whole expressions,
`nested`, and `statement` is given the parser for the statements one level further down; the
two knots are tied in `exprAt` and `statementAt`.

## Main results

* `parse`: the statements of a program, or the first error in it.
-/

namespace Labyrinth.Braced

open Labyrinth.Parser

/-- The words that are no names. -/
def keywords : List String := [
  "function", "let", "const", "var", "for", "of", "while", "if", "else", "return", "break",
  "continue", "true", "false", "null", "undefined", "new", "await", "throw"]

/-- The operators of assignments. -/
def assignments : List (String × Option BinaryOp) := [
  ("=", none), ("+=", some .add), ("-=", some .sub), ("*=", some .mul), ("/=", some .div),
  ("%=", some .rem)]

/-! ### Calls -/

/-- The method with a given spelling that is called with `arity` arguments. -/
def methodFor (name : String) (arity : Nat) : Method :=
  match name with
  | "push" => .push
  | "pop" => .pop
  | "shift" => .shift
  | "unshift" => .unshift
  | "has" => .has
  | "includes" => .has
  | "add" => .add
  | "remove" => .remove
  | "delete" => .discard
  | "get" => .get
  | "set" => .put
  | "keys" => .keys
  | "values" => .values
  | "slice" => if arity = 0 then .copy else .other name
  | "indexOf" => .indexOf
  | _ => .other name

/-- The call of an expression, whose opening bracket stands at `p`. -/
def call (callee : Expr) (args : List Expr) (p : Position) : Except SyntaxError Expr :=
  match callee with
  | .name name =>
    match Capability.ofBraced? name with
    | some c => do
      checkArity p c.bracedName c.arity args
      return .capability c args
    | none =>
      match name with
      | "String" => .ok (.builtin .str args)
      | "range" => .ok (.builtin .range args)
      | _ => .ok (.call name args)
  | .attribute object name => .ok (.method object (methodFor name args.length) args)
  | _ => .error ⟨p, .notCallable⟩

/-- The built-in function that is a member of an object. -/
def memberFunction? (object member : String) : Option Builtin :=
  match object, member with
  | "Math", "abs" => some .abs
  | "Math", "min" => some .min
  | "Math", "max" => some .max
  | "console", "log" => some .print
  | _, _ => none

/-! ### Expressions -/

section Levels

variable (nested : Nat → Parser Expr)

/-- Reads the arguments of a call. -/
def arguments (room : Nat) : Parser (List Expr) := do
  expectOp "("
  separated ")" (nested room)

/-- Reads the call of a member of one of the built-in objects. -/
def memberCall (object : String) (room : Nat) : Parser Expr := do
  advance
  expectOp "."
  let p ← position
  let member ← identifier []
  match memberFunction? object member with
  | some b => return .builtin b (← arguments nested room)
  | none => failAt p (.unknownMember object member)

/-- The collection that is created by a class, from a source if there is one. -/
def collection (className : String) (source : Option Expr) : Parser Expr :=
  match className, source with
  | "Set", none => return .emptySet
  | "Set", some source => return .setOf source
  | "Map", none => return .emptyMap
  | "Map", some source => return .mapOf source
  | _, _ => fail (.onlyThrown className)

/-- Reads the creation of a set or of a map. -/
def creation (room : Nat) : Parser Expr := do
  advance
  let className ← identifier keywords
  expectOp "("
  let source ← if ← check (.op ")") then pure none else some <$> nested room
  expectOp ")"
  collection className source

/-- Reads what begins with a word: a constant, the use of a built-in object, or a name. -/
def word (text : String) (room : Nat) : Parser Expr := do
  match text with
  | "true" => advance; return .literal (.bool true)
  | "false" => advance; return .literal (.bool false)
  | "null" => advance; return .literal .null
  | "undefined" => advance; return .literal .null
  | "new" => creation nested room
  | "Math" => memberCall nested text room
  | "console" => memberCall nested text room
  | _ =>
    if keywords.contains text then
      fail (.unexpectedKeyword text)
    else
      advance
      return .name text

/-- Reads an expression in parentheses, a list or an empty map. -/
def bracketed (opening : String) (room : Nat) : Parser Expr := do
  match opening with
  | "(" =>
    advance
    let inner ← nested room
    expectOp ")"
    return inner
  | "[" => advance; return .list (← separated "]" (nested room))
  | "\x7b" =>
    advance
    expectOp "\x7d"
    return .emptyMap
  | _ => failFound .expectedExpression

/-- Reads an expression that is no call and has no operator. -/
def atom (room : Nat) : Parser Expr := do
  match ← peek with
  | .int n => advance; return .literal (.int n)
  | .str s => advance; return .literal (.str s)
  | .name text => word nested text room
  | .op opening => bracketed nested opening room
  | _ => failFound .expectedExpression

/-- Reads one call, subscript or attribute of an expression, if one follows. The attribute
`length` is the length of the value unless it is called. -/
def suffix (room : Nat) (e : Expr) : Parser (Option Expr) := do
  match ← peek with
  | .op "(" =>
    descend room
    let p ← position
    let args ← arguments nested (room - 1)
    return some (← call e args p)
  | .op "[" =>
    descend room
    advance
    let i ← nested (room - 1)
    expectOp "]"
    return some (.index e i)
  | .op "." =>
    descend room
    advance
    let name ← identifier []
    if name == "length" && !(← check (.op "(")) then
      return some (.builtin .len [e])
    else
      return some (.attribute e name)
  | _ => return none

/-- Reads the calls, subscripts and attributes that follow an expression. -/
def suffixes : Nat → Expr → Parser Expr
  | 0, e => do
    match ← suffix nested 0 e with
    | none => return e
    | some e => return e
  | room + 1, e => do
    match ← suffix nested (room + 1) e with
    | none => return e
    | some e => suffixes room e

/-- Reads an expression without operators. -/
def postfixed (room : Nat) : Parser Expr := do
  let e ← atom nested room
  suffixes nested room e

/-- Reads an expression that may begin with prefix operators. Waiting has no effect. -/
def prefixed : Nat → Parser Expr
  | 0 => do
    if ← eat (.op "!") then fail .nestingTooDeep
    else if ← eat (.op "-") then fail .nestingTooDeep
    else if ← eat (.name "await") then fail .nestingTooDeep
    else postfixed nested 0
  | room + 1 => do
    if ← eat (.op "!") then return .unary .not (← prefixed room)
    else if ← eat (.op "-") then return negate (← prefixed room)
    else if ← eat (.name "await") then prefixed room
    else postfixed nested (room + 1)

/-- Reads products, quotients and remainders. -/
def term : Nat → Parser Expr :=
  chain (oneOf [("*", .mul), ("/", .div), ("%", .rem)]) (prefixed nested) .binary

/-- Reads sums and differences. -/
def sum : Nat → Parser Expr :=
  chain (oneOf [("+", .add), ("-", .sub)]) (term nested) .binary

/-- Reads comparisons of order. -/
def relation : Nat → Parser Expr :=
  chain (oneOf [("<=", .le), (">=", .ge), ("<", .lt), (">", .gt)]) (sum nested) .binary

/-- Reads comparisons for equality. -/
def equality : Nat → Parser Expr :=
  chain (oneOf [("===", .eq), ("==", .eq), ("!==", .ne), ("!=", .ne)]) (relation nested) .binary

/-- Reads a conjunction. -/
def conjunction : Nat → Parser Expr :=
  chain (oneOf [("&&", .and)]) (equality nested) .logical

/-- Reads a disjunction. -/
def disjunction : Nat → Parser Expr :=
  chain (oneOf [("||", .or)]) (conjunction nested) .logical

end Levels

/-- Reads an expression with the given room, in which at most `depth` expressions are nested. -/
def exprAt : (depth room : Nat) → Parser Expr
  | 0, _ => fail .nestingTooDeep
  | depth + 1, room => do
    descend room
    disjunction (exprAt depth) (room - 1)

/-- Reads an expression. As every nested expression has less room than the one around it, no
more than `room` of them can be nested. -/
def expr (room : Nat) : Parser Expr := exprAt (room + 1) room

/-! ### Statements without bodies -/

/-- Passes over the semicolon that ends a statement. -/
def endStatement : Parser Unit := expectOp ";"

/-- Reads the names bound by a declaration or by a loop. -/
def pattern : Parser Pattern := do
  if ← eat (.op "[") then
    return .tuple (← separated "]" (identifier keywords))
  else
    return .single (← identifier keywords)

/-- Whether a pattern consists of one name. -/
def isSingle : Pattern → Bool
  | .single _ => true
  | .tuple _ => false

/-- Reads one binding of a declaration. -/
def binding (constant : Bool) (room : Nat) : Parser Stmt := do
  let names ← pattern
  if ← eat (.op "=") then
    return .declare names (some (← expr room)) constant
  else if constant || !isSingle names then
    fail .missingInitializer
  else
    return .declare names none constant

/-- Reads a declaration, each of whose bindings is a statement. -/
def declaration (constant : Bool) (room : Nat) : Parser (List Stmt) := do
  advance
  let stmts ← collect do
    let stmt ← binding constant room
    return if ← eat (.op ",") then .more stmt else .last stmt
  endStatement
  return stmts

/-- The names in a list of expressions, if they all are names. -/
def namesOf? (items : List Expr) : Option (List String) :=
  items.mapM fun item =>
    match item with
    | .name name => some name
    | _ => none

/-- The place written by an expression that stands at `p`. -/
def targetOf (e : Expr) (op : Option BinaryOp) (p : Position) : Except SyntaxError Target :=
  match e, op with
  | .name name, _ => .ok (.name name)
  | .index object i, _ => .ok (.index object i)
  | .list items, none =>
    match namesOf? items with
    | some names => .ok (.tuple names)
    | none => .error ⟨p, .invalidDestructuring⟩
  | _, _ => .error ⟨p, .invalidTarget⟩

/-- Reads a statement that begins with an expression, except for its semicolon. -/
def assignment (room : Nat) : Parser Stmt := do
  let p ← position
  let first ← expr room
  match ← oneOf assignments with
  | some op =>
    let value ← expr room
    let target ← targetOf first op p
    return .assign target op value
  | none => return .expr first

/-- Reads what is thrown. -/
def thrown (room : Nat) : Parser Stmt := do
  if ← eat (.name "new") then
    let className ← identifier keywords
    expectOp "("
    let message ← expr room
    expectOp ")"
    return .throw className message
  else
    return .throw "Error" (← expr room)

/-- Reads what a function returns. -/
def returned (room : Nat) : Parser Stmt := do
  match ← peek with
  | .op ";" => return .return none
  | .op "\x7d" => return .return none
  | _ => return .return (some (← expr room))

/-- Reads a condition between parentheses. -/
def condition (room : Nat) : Parser Expr := do
  expectOp "("
  let e ← expr room
  expectOp ")"
  return e

/-! ### Statements with bodies -/

section Blocks

variable (room : Nat) (inner : Surroundings → Parser (List Stmt))

/-- Reads the statements between braces, one level further down. -/
def braced (around : Surroundings) : Parser (List Stmt) := do
  expectOp "\x7b"
  descend room
  let body ← collect do
    match ← peek with
    | .op "\x7d" => return .stop
    | .eof => failFound (.expected "\x7d")
    | _ => return .more (← inner around)
  expectOp "\x7d"
  return body.flatten

/-- Reads the body of a statement: statements between braces, or a single statement. -/
def body (around : Surroundings) : Parser (List Stmt) := do
  if ← check (.op "\x7b") then
    braced room inner around
  else
    descend room
    inner around

/-- Reads the definition of a function. -/
def function : Parser Stmt := do
  advance
  let name ← functionName keywords
  let params ← parameters keywords
  return .function name params (← braced room inner .function)

/-- Reads a loop over the elements of a collection. -/
def forEach (around : Surroundings) : Parser Stmt := do
  advance
  expectOp "("
  unless ← eat (.name "const") do
    unless ← eat (.name "let") do
      failFound .expectedDeclarator
  let names ← pattern
  expectWord "of"
  let iterable ← expr room
  expectOp ")"
  return .forEach names iterable (← body room inner around.loop)

/-- Reads a loop with a condition. -/
def whileLoop (around : Surroundings) : Parser Stmt := do
  advance
  let test ← condition room
  return .while test (← body room inner around.loop)

/-- Reads a condition and the body that it guards. -/
def guarded (around : Surroundings) : Parser (Expr × List Stmt) := do
  advance
  let test ← condition room
  return (test, ← body room inner around)

/-- Reads a conditional statement. Conditions that follow `else` are arms of the same one. -/
def conditional (around : Surroundings) : Parser Stmt := do
  let arms ← collect do
    let arm ← guarded room inner around
    if (← check (.name "else")) && (← peekSecond) == .name "if" then
      advance
      return .more arm
    else
      return .last arm
  let last ← if ← eat (.name "else") then some <$> body room inner around else pure none
  return .cond (Arms.ofList arms last)

/-- Reads a statement. -/
def statement (around : Surroundings) : Parser (List Stmt) := do
  match ← peek with
  | .op ";" => advance; return []
  | .op "\x7b" => braced room inner around
  | .name "function" => return [← function room inner]
  | .name "let" => declaration false room
  | .name "const" => declaration true room
  | .name "var" => declaration false room
  | .name "for" => return [← forEach room inner around]
  | .name "while" => return [← whileLoop room inner around]
  | .name "if" => return [← conditional room inner around]
  | .name "return" =>
    if around.inFunction then
      advance
      let stmt ← returned room
      endStatement
      return [stmt]
    else
      fail .returnOutsideFunction
  | .name "break" =>
    if around.inLoop then
      advance
      endStatement
      return [.break]
    else
      fail (.outsideLoop "break")
  | .name "continue" =>
    if around.inLoop then
      advance
      endStatement
      return [.continue]
    else
      fail (.outsideLoop "continue")
  | .name "throw" =>
    advance
    let stmt ← thrown room
    endStatement
    return [stmt]
  | .name "else" => fail (.unmatchedAlternative "else")
  | _ =>
    let stmt ← assignment room
    endStatement
    return [stmt]

end Blocks

/-- Reads a statement with the given room for the bodies in it. -/
def statementAt : Nat → Surroundings → Parser (List Stmt)
  | 0 => statement 0 fun _ => fail .nestingTooDeep
  | room + 1 => statement (room + 1) (statementAt room)

/-- Reads all statements of a program. -/
def program : Parser (List Stmt) := do
  let stmts ← collect do
    if ← check .eof then return .stop
    else return .more (← statementAt maxNesting .top)
  return stmts.flatten

/-- The statements of a program, or the first error in it. -/
def parse (source : String) : Except SyntaxError (List Stmt) := program.run (tokens source)

end Labyrinth.Braced
