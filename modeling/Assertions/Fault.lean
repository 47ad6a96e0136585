import Assertions.Token

/-!
# Faults of a text

Why a text is not an expression or an assertion, and where in it that shows.
-/

namespace Assertions

/-- Why a text cannot be read. -/
inductive Cause where
  /-- An identifier is no registered function. -/
  | unknownFunction (name : Text)
  /-- A token was to be read at the end of the text. -/
  | endOfInput
  /-- A quote has no partner. -/
  | openLiteral
  /-- A literal holds the character that none may hold. -/
  | forbiddenInLiteral
  /-- Digits and dots do not make up a number. -/
  | badNumber (text : Text)
  /-- No token starts with a character. -/
  | badCharacter (c : Char)
  /-- The brackets of a call are not closed. -/
  | openCall (name : Text)
  /-- There are more tokens than one expression may have. -/
  | tooManyTokens
  /-- There is no token at all. -/
  | emptyExpression
  /-- An operand was to follow the last token. -/
  | endOfExpression
  /-- An operator stands in the place of an operand. -/
  | operatorForOperand (op : Operator)
  /-- An opening bracket has no partner. -/
  | openGroup
  /-- A closing bracket has no partner. -/
  | strayClose
  /-- A token follows a complete expression. -/
  | strayToken (token : Token)
  /-- An argument of a call is empty. -/
  | emptyArgument (name : Text)
  /-- Brackets and calls are nested too deeply. -/
  | tooDeep
  /-- An assertion has no separator. -/
  | noSeparator
  /-- The guard of an assertion is not closed. -/
  | openGuard
  /-- Text follows the guard of an assertion. -/
  | afterGuard
  /-- A cause in the words of the host. -/
  | stated (message : Text)
deriving DecidableEq

namespace Cause

/-- A text between quotes, as messages show names. -/
def inQuotes (text : Text) : String := "'" ++ String.ofList text ++ "'"

/-- What a message says about a cause. -/
def description : Cause → String
  | unknownFunction name => "unknown function " ++ inQuotes name
  | endOfInput => "unexpected end of input"
  | openLiteral => "unterminated string literal"
  | forbiddenInLiteral => "string literal must not contain " ++ inQuotes [Symbol.forbidden]
  | badNumber text => "invalid number literal " ++ inQuotes text
  | badCharacter c => "unexpected character " ++ inQuotes [c]
  | openCall name => "unmatched '(' in call to " ++ inQuotes name
  | tooManyTokens => "maximum parsing iterations reached"
  | emptyExpression => "empty expression"
  | endOfExpression => "unexpected end of expression"
  | operatorForOperand op => "expected operand, found operator " ++ inQuotes op.spelling
  | openGroup => "unmatched '('"
  | strayClose => "unmatched ')'"
  | strayToken token => "unexpected token " ++ inQuotes token.toText
  | emptyArgument name => "empty argument in call to " ++ inQuotes name
  | tooDeep => "maximum nesting depth reached"
  | noSeparator => "missing activation separator ':'"
  | openGuard => "unmatched '(' in WHEN activation"
  | afterGuard => "unexpected text after WHEN condition"
  | stated message => String.ofList message

end Cause

/-- A cause and the span of the text that it is about. -/
structure Fault where
  cause : Cause
  span : Span
deriving DecidableEq

namespace Fault

/-- The fault as it is in a text that starts `offset` bytes later. -/
def shift (fault : Fault) (offset : Nat) : Fault := { fault with span := fault.span.shift offset }

/-- The message of a fault. -/
def message (fault : Fault) : String :=
  match fault.cause with
  | .unknownFunction _ => fault.cause.description ++ " at " ++ toString fault.span.start
  | cause => "syntax error at " ++ toString fault.span.start ++ ": " ++ cause.description

end Fault

/-- A text that cannot be read, moved to the right by `offset` bytes. -/
def shiftError {α : Type u} (offset : Nat) : Except Fault α → Except Fault α
  | .ok a => .ok a
  | .error fault => .error (fault.shift offset)

end Assertions
