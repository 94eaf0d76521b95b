import Labyrinth.Language.SyntaxError
import Labyrinth.Language.Tree

/-!
# Parsers

A **parser** reads tokens from a stream and either yields a result or stops with a syntax
error. The stream never runs dry: its last token, `eof`, stays in place however often it is
read. Besides the tokens a stream knows which functions have been defined so far.

Nesting is limited. Every parser for something that can be nested is given the **room** that is
left, the number of levels it may still descend; `descend` refuses when there is none. Chains
of operators use up room as well, since they make trees just as deep.

## Main results

* `Parser.collect` and `Parser.fold`: loops that end because each round uses up a token.
* `Parser.chain`: operands joined by operators that associate to the left.
-/

namespace Labyrinth

/-- The number of levels that a program may be nested. -/
def maxNesting : Nat := 100

/-- The tokens that have not been read, and the names of the functions defined before. -/
structure TokenStream where
  /-- The next token. -/
  current : Token
  /-- The tokens after the next one. -/
  rest : List Token
  /-- The number of tokens after the next one. -/
  left : Nat
  /-- The names of the functions whose definitions have begun. -/
  defined : List String
  left_eq : left = rest.length

namespace TokenStream

/-- The stream at the beginning of a list of tokens. -/
def ofTokens : List Token → TokenStream
  | [] => ⟨⟨.eof, Position.start⟩, [], 0, [], rfl⟩
  | t :: ts => ⟨t, ts, ts.length, [], rfl⟩

/-- The token after the next one. Behind the last token there is that token again. -/
def second (s : TokenStream) : Token := s.rest.headD s.current

/-- Passes over the next token, unless it is the last one. -/
def advance (s : TokenStream) : TokenStream :=
  match h : s.rest with
  | [] => s
  | t :: ts => ⟨t, ts, s.left - 1, s.defined, by simp [s.left_eq, h]⟩

end TokenStream

/-- Reads tokens and yields a result or a syntax error. -/
abbrev Parser := StateT TokenStream (Except SyntaxError)

/-- How a loop goes on after a round. -/
inductive Next (α : Type)
  /-- There is nothing more. -/
  | stop
  /-- The round has yielded the last result. -/
  | last (a : α)
  /-- The round has yielded a result, and another round follows. -/
  | more (a : α)

namespace Parser

variable {α β : Type}

/-- Stops with an error at a position. -/
def failAt (p : Position) (cause : SyntaxCause) : Parser α := fun _ => .error ⟨p, cause⟩

/-- Stops with an error at the next token. -/
def fail (cause : SyntaxCause) : Parser α := fun s => .error ⟨s.current.position, cause⟩

/-- Stops with an error that mentions the next token. -/
def failFound (cause : TokenKind → SyntaxCause) : Parser α := fun s =>
  .error ⟨s.current.position, cause s.current.kind⟩

/-- What the next token stands for. -/
def peek : Parser TokenKind := fun s => .ok (s.current.kind, s)

/-- What the token after the next one stands for. -/
def peekSecond : Parser TokenKind := fun s => .ok (s.second.kind, s)

/-- The position of the next token. -/
def position : Parser Position := fun s => .ok (s.current.position, s)

/-- Passes over the next token. -/
def advance : Parser Unit := fun s => .ok ((), s.advance)

/-- Whether a certain token comes next. -/
def check (kind : TokenKind) : Parser Bool := fun s => .ok (s.current.kind == kind, s)

/-- Passes over a certain token if it comes next, and tells whether it did. -/
def eat (kind : TokenKind) : Parser Bool := do
  if ← check kind then
    advance
    return true
  else
    return false

/-- Passes over an operator that has to come next. -/
def expectOp (spelling : String) : Parser Unit := do
  unless ← eat (.op spelling) do
    failFound (.expected spelling)

/-- Passes over a keyword that has to come next. -/
def expectWord (word : String) : Parser Unit := do
  unless ← eat (.name word) do
    failFound (.expected word)

/-- Reads a name that is none of the keywords. -/
def identifier (keywords : List String) : Parser String := do
  match ← peek with
  | .name name =>
    if keywords.contains name then
      failFound .expectedName
    else
      advance
      return name
  | _ => failFound .expectedName

/-- Goes one level down, if there is room left. -/
def descend (room : Nat) : Parser Unit :=
  if room = 0 then fail .nestingTooDeep else pure ()

/-! ### Loops -/

/-- The results of the rounds of a loop. A round that uses up no token is the last one. -/
def collectFrom (item : Parser (Next α)) (s : TokenStream) :
    Except SyntaxError (List α × TokenStream) :=
  match item s with
  | .error e => .error e
  | .ok (.stop, s') => .ok ([], s')
  | .ok (.last a, s') => .ok ([a], s')
  | .ok (.more a, s') =>
    if s'.left < s.left then do
      let (as, s'') ← collectFrom item s'
      return (a :: as, s'')
    else
      .ok ([a], s')
termination_by s.left

/-- Repeats a parser and collects its results. -/
def collect (item : Parser (Next α)) : Parser (List α) := collectFrom item

/-- The result of a loop whose rounds start from the result of the round before. A round that
uses up no token is the last one. -/
def foldFrom (step : β → Parser (Next β)) (b : β) (s : TokenStream) :
    Except SyntaxError (β × TokenStream) :=
  match step b s with
  | .error e => .error e
  | .ok (.stop, s') => .ok (b, s')
  | .ok (.last b', s') => .ok (b', s')
  | .ok (.more b', s') =>
    if s'.left < s.left then foldFrom step b' s' else .ok (b', s')
termination_by s.left

/-- Repeats a parser that is given its former result. -/
def fold (step : β → Parser (Next β)) (b : β) : Parser β := foldFrom step b

/-- Reads items set apart by commas up to a closing bracket. A comma may follow the last one. -/
def separated (close : String) (item : Parser α) : Parser (List α) := do
  let items ← collect do
    if ← check (.op close) then
      return .stop
    else
      let a ← item
      return if ← eat (.op ",") then .more a else .last a
  expectOp close
  return items

/-- Reads the operators and operands that follow an operand. -/
def chainRest (operator : Parser (Option β)) (operand : Nat → Parser α)
    (combine : β → α → α → α) : Nat → α → Parser α
  | 0, lhs => do
    match ← operator with
    | none => return lhs
    | some _ => fail .nestingTooDeep
  | room + 1, lhs => do
    match ← operator with
    | none => return lhs
    | some op =>
      let rhs ← operand room
      chainRest operator operand combine room (combine op lhs rhs)

/-- Reads operands joined by operators, which associate to the left. -/
def chain (operator : Parser (Option β)) (operand : Nat → Parser α)
    (combine : β → α → α → α) (room : Nat) : Parser α := do
  let lhs ← operand room
  chainRest operator operand combine room lhs

/-- Reads the first of the given operators that comes next. -/
def oneOf (operators : List (String × β)) : Parser (Option β) := do
  match ← peek with
  | .op spelling =>
    match operators.lookup spelling with
    | some b =>
      advance
      return some b
    | none => return none
  | _ => return none

/-- Reads a keyword that acts as an operator. -/
def wordOperator (word : String) (b : β) : Parser (Option β) := do
  return if ← eat (.name word) then some b else none

/-! ### Function headers -/

/-- Reads the name of a function that has not been defined before. -/
def functionName (keywords : List String) : Parser String := do
  let p ← position
  let name ← identifier keywords
  let s ← get
  if s.defined.contains name then
    failAt p (.duplicateFunction name)
  else
    set { s with defined := name :: s.defined }
    return name

/-- Reads the parameters of a function, which have to differ from each other. -/
def parameters (keywords : List String) : Parser (List String) := do
  expectOp "("
  let params ← fold (fun params => do
    if ← check (.op ")") then
      return .stop
    else
      let param ← identifier keywords
      if params.contains param then
        fail (.duplicateParameter param)
      else
        let params := params ++ [param]
        return if ← eat (.op ",") then .more params else .last params) []
  expectOp ")"
  return params

/-! ### Shared rules -/

/-- The negation of an operand. The negation of an integer is an integer where it can be. -/
def negate : Expr → Expr
  | .literal (.int n) =>
    if n = Int64.minValue then .unary .negate (.literal (.int n)) else .literal (.int (-n))
  | operand => .unary .negate operand

/-- Accepts the arguments of a capability if there are as many as it takes. -/
def checkArity (p : Position) (name : String) (arity : Nat) (args : List Expr) :
    Except SyntaxError Unit :=
  if args.length = arity then .ok () else .error ⟨p, .argumentCount name arity args.length⟩

/-- Runs a parser on the tokens of a source. -/
def run (parser : Parser α) (tokens : Except SyntaxError (List Token)) :
    Except SyntaxError α := do
  let ts ← tokens
  let result ← parser (TokenStream.ofTokens ts)
  return result.1

end Parser

/-- What surrounds a statement. -/
structure Surroundings where
  /-- Whether a loop surrounds the statement in the same function. -/
  inLoop : Bool
  /-- Whether a function surrounds the statement. -/
  inFunction : Bool
  deriving DecidableEq, Repr

namespace Surroundings

/-- Outside all loops and functions. -/
def top : Surroundings := ⟨false, false⟩

/-- In the body of a loop. -/
def loop (s : Surroundings) : Surroundings := ⟨true, s.inFunction⟩

/-- In the body of a function. -/
def function : Surroundings := ⟨false, true⟩

end Surroundings

end Labyrinth
