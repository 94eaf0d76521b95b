import Labyrinth.Language.Token

/-!
# Syntax errors

Why a source text is no program, and where. A **cause** says what is wrong; its wording is
given by `SyntaxCause.message` alone.

## Main results

* `SyntaxError.message`: the full text shown to the author of the program.
-/

namespace Labyrinth

/-- What is wrong with a source text. -/
inductive SyntaxCause
  /-- A line closes blocks but reaches no indentation that is still open. -/
  | badDedent
  | unterminatedComment
  | unterminatedString
  | unknownEscape (c : Char)
  | unexpectedCharacter (c : Char)
  | integerTooLarge
  | notAnInteger
  | nestingTooDeep
  /-- A certain operator or keyword has to stand here. -/
  | expected (spelling : String) (found : TokenKind)
  | expectedName (found : TokenKind)
  | expectedExpression (found : TokenKind)
  | expectedLineEnd (found : TokenKind)
  | expectedDeclarator (found : TokenKind)
  | expectedBlock
  | unexpectedIndent
  | unexpectedKeyword (word : String)
  /-- An alternative that follows no condition. -/
  | unmatchedAlternative (word : String)
  | duplicateFunction (name : String)
  | duplicateParameter (name : String)
  | outsideLoop (word : String)
  | returnOutsideFunction
  | missingInitializer
  | unpackIntoExpression
  | assignToExpression
  | invalidTarget
  | invalidDestructuring
  | chainedComparison
  | notCallable
  | argumentCount (name : String) (arity given : Nat)
  /-- An object of a class that can only be thrown. -/
  | onlyThrown (className : String)
  | unknownMember (object member : String)
  deriving DecidableEq, Repr

/-- The wording of a cause. -/
def SyntaxCause.message : SyntaxCause → String
  | badDedent => "unindent does not match any outer indentation level"
  | unterminatedComment => "unterminated block comment"
  | unterminatedString => "unterminated string literal"
  | unknownEscape c => s!"unknown escape sequence '\\{c}'"
  | unexpectedCharacter c => s!"unexpected character '{c}'"
  | integerTooLarge => "integer literal too large"
  | notAnInteger => "only integer literals are supported"
  | nestingTooDeep => "nesting too deep"
  | expected spelling found => s!"expected '{spelling}' but found {found.describe}"
  | expectedName found => s!"expected a name but found {found.describe}"
  | expectedExpression found => s!"expected an expression but found {found.describe}"
  | expectedLineEnd found => s!"expected end of line but found {found.describe}"
  | expectedDeclarator found => s!"expected 'const' or 'let' but found {found.describe}"
  | expectedBlock => "expected an indented block"
  | unexpectedIndent => "unexpected indent"
  | unexpectedKeyword word => s!"unexpected keyword '{word}'"
  | unmatchedAlternative word => s!"'{word}' without a matching 'if'"
  | duplicateFunction name => s!"function '{name}' is defined more than once"
  | duplicateParameter name => s!"duplicate parameter '{name}'"
  | outsideLoop word => s!"'{word}' outside loop"
  | returnOutsideFunction => "'return' outside function"
  | missingInitializer => "missing initializer in declaration"
  | unpackIntoExpression => "cannot unpack into an expression"
  | assignToExpression => "cannot assign to expression"
  | invalidTarget => "invalid assignment target"
  | invalidDestructuring => "invalid destructuring target"
  | chainedComparison => "chained comparisons are not supported"
  | notCallable => "expression is not callable"
  | argumentCount name arity given =>
    s!"{name}() takes {arity} arguments but {given} were given"
  | onlyThrown className => s!"'new {className}' is only supported after 'throw'"
  | unknownMember object member => s!"unknown member '{object}.{member}'"

/-- A cause and the position at which it was noticed. -/
structure SyntaxError where
  position : Position
  cause : SyntaxCause
  deriving DecidableEq, Repr

/-- The text shown for a syntax error. -/
def SyntaxError.message (e : SyntaxError) : String :=
  s!"SyntaxError: line {e.position.line}, column {e.position.column}: {e.cause.message}"

end Labyrinth
