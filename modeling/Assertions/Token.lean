import Assertions.Decimal.Layout
import Assertions.Operator
import Assertions.Path
import Assertions.Span

/-!
# Tokens

The tokens of an expression. A call is one token together with its arguments, whose text is read
later, as expressions of their own.
-/

namespace Assertions

/-- What a reference reads from. -/
inductive Side where
  | model
  | state
deriving DecidableEq, Repr

/-- The character that starts a reference. -/
def Side.symbol : Side → Char
  | .model => Symbol.model
  | .state => Symbol.state

/-- A token of an expression. -/
inductive Token where
  /-- A path into the model or the state. -/
  | ref (side : Side) (path : Path)
  /-- A string literal. -/
  | string (content : Text)
  /-- A number literal. -/
  | number (value : Float)
  /-- A function name with a bracketed argument list, which starts at position `argsAt`. -/
  | call (name args : Text) (argsAt : Nat)
  /-- A function name without brackets. -/
  | statement (name : Text)
  | operator (op : Operator)
  | openBracket
  | closeBracket
deriving DecidableEq

/-- A token and where it was read. -/
structure PlacedToken where
  token : Token
  span : Span
deriving DecidableEq

namespace Token

/-- The text of a token. It is what was read, except that a number is written the usual way. -/
def toText : Token → Text
  | .ref side path => side.symbol :: path.toText
  | .string content => Symbol.quote :: content ++ [Symbol.quote]
  | .number value => Decimal.Layout.plain.write value
  | .call name args _ => name ++ Symbol.openBracket :: args ++ [Symbol.closeBracket]
  | .statement name => name
  | .operator op => op.spelling
  | .openBracket => [Symbol.openBracket]
  | .closeBracket => [Symbol.closeBracket]

/-- The token as it is in a text that starts `offset` bytes later. -/
def shift (token : Token) (offset : Nat) : Token :=
  match token with
  | .call name args argsAt => .call name args (argsAt + offset)
  | other => other

end Token

/-- The placed token as it is in a text that starts `offset` bytes later. -/
def PlacedToken.shift (placed : PlacedToken) (offset : Nat) : PlacedToken :=
  ⟨placed.token.shift offset, placed.span.shift offset⟩

end Assertions
