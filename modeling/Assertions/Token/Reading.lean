import Assertions.Condensed
import Assertions.Decimal.Reading
import Assertions.Fault
import Assertions.Literal
import Assertions.Nesting

/-!
# Reading tokens

`Token.read` reads the token at the start of a condensed text. The first character decides what
kind it is: a reference, a string, a number, a name or an operator. A name has to be one of a given
set of function names, so readers take that set as a test on texts.

`tokenize` reads a whole text, of at most `maxTokens` tokens. It takes the position at which the
text starts, and every position it reports counts from there.
-/

namespace Assertions

/-- A token, the text that it was read from, and the text after it. -/
structure Lexeme where
  token : Token
  text : Text
  rest : Text

namespace Token

/-- Whether a character may follow the symbol of a reference. -/
def isPathChar (c : Char) : Bool := isWordChar c || c == Symbol.dot

/-- Whether a character may stand in a number. -/
def isNumberChar (c : Char) : Bool := c.isDigit || c == Symbol.dot

/-- Whether a number starts here: a digit, or a dot before a digit. -/
def startsNumber : Text → Bool
  | [] => false
  | c :: rest => c.isDigit || (c == Symbol.dot && rest.head?.any Char.isDigit)

/-- A reference: everything that can belong to its path does. -/
def readRef (side : Side) (rest : Text) : Lexeme :=
  let path := rest.takeWhile isPathChar
  ⟨.ref side (.ofText path), side.symbol :: path, rest.dropWhile isPathChar⟩

/-- A string, whose opening quote stands at `offset`. -/
def readString (offset : Nat) (rest : Text) : Except Fault Lexeme :=
  match Literal.splitAtQuote? rest with
  | none => .error ⟨.openLiteral, ⟨offset, offset + 1⟩⟩
  | some (content, after) =>
    if content.contains Symbol.forbidden then
      let at' := offset + 1 + Text.size (content.takeWhile (· != Symbol.forbidden))
      .error ⟨.forbiddenInLiteral, ⟨at', at' + 1⟩⟩
    else .ok ⟨.string content, Symbol.quote :: content ++ [Symbol.quote], after⟩

/-- A number: all digits and dots that follow each other. It has at most one dot, and no dot at
its end. -/
def readNumber (offset : Nat) (text : Text) : Except Fault Lexeme :=
  let number := text.takeWhile isNumberChar
  if number.getLast? == some Symbol.dot || 1 < number.count Symbol.dot then
    .error ⟨.badNumber number, ⟨offset, offset + Text.size number⟩⟩
  else .ok ⟨.number (Decimal.literalValue number), number, text.dropWhile isNumberChar⟩

/-- A name, and with it the argument list if one follows. -/
def readName (names : Text → Bool) (offset : Nat) (text : Text) : Except Fault Lexeme :=
  let name := text.takeWhile isWordChar
  let stop := offset + Text.size name
  if !names name then .error ⟨.unknownFunction name, ⟨offset, stop⟩⟩
  else
    match text.dropWhile isWordChar with
    | [] => .ok ⟨.statement name, name, []⟩
    | c :: rest =>
      if c == Symbol.openBracket then
        match enclosed? rest with
        | none => .error ⟨.openCall name, ⟨stop, stop + 1⟩⟩
        | some (args, after) =>
          .ok ⟨.call name args (stop + 1),
            name ++ Symbol.openBracket :: args ++ [Symbol.closeBracket], after⟩
      else .ok ⟨.statement name, name, c :: rest⟩

/-- An operator or a bracket. -/
def readSymbol (offset : Nat) (c : Char) (rest : Text) : Except Fault Lexeme :=
  if c == Symbol.openBracket then .ok ⟨.openBracket, [c], rest⟩
  else if c == Symbol.closeBracket then .ok ⟨.closeBracket, [c], rest⟩
  else
    match Operator.read? (c :: rest) with
    | some (op, after) => .ok ⟨.operator op, op.spelling, after⟩
    | none => .error ⟨.badCharacter c, ⟨offset, offset + c.utf8Size⟩⟩

/-- The token at the start of a text that stands at position `offset`. -/
def read (names : Text → Bool) (offset : Nat) : Text → Except Fault Lexeme
  | [] => .error ⟨.endOfInput, ⟨offset, offset⟩⟩
  | c :: rest =>
    if c == Symbol.model then .ok (readRef .model rest)
    else if c == Symbol.state then .ok (readRef .state rest)
    else if c == Symbol.quote then readString offset rest
    else if startsNumber (c :: rest) then readNumber offset (c :: rest)
    else if isNameStart c then readName names offset (c :: rest)
    else readSymbol offset c rest

end Token

/-- The tokens of a text that stands at position `offset`, if there are at most `room` of them. -/
def tokenizeWithin (names : Text → Bool) : (room offset : Nat) → Text →
    Except Fault (List PlacedToken)
  | _, _, [] => .ok []
  | 0, offset, c :: rest =>
    .error ⟨.tooManyTokens, ⟨offset, offset + Text.size (c :: rest)⟩⟩
  | room + 1, offset, c :: rest =>
    match Token.read names offset (c :: rest) with
    | .error fault => .error fault
    | .ok lexeme =>
      let stop := offset + Text.size lexeme.text
      match tokenizeWithin names room stop lexeme.rest with
      | .error fault => .error fault
      | .ok others => .ok (⟨lexeme.token, ⟨offset, stop⟩⟩ :: others)

/-- The first token of a text, and then the others. -/
theorem tokenizeWithin_cons (names : Text → Bool) (room offset : Nat) (c : Char) (rest : Text) :
    tokenizeWithin names (room + 1) offset (c :: rest) =
      (Token.read names offset (c :: rest)).bind fun lexeme =>
        (tokenizeWithin names room (offset + Text.size lexeme.text) lexeme.rest).map
          (⟨lexeme.token, ⟨offset, offset + Text.size lexeme.text⟩⟩ :: ·) := by
  rw [tokenizeWithin]
  cases Token.read names offset (c :: rest) with
  | error fault => rfl
  | ok lexeme =>
    show (match tokenizeWithin names room (offset + Text.size lexeme.text) lexeme.rest with
      | .error fault => _
      | .ok others => _) = Except.map _ _
    cases tokenizeWithin names room (offset + Text.size lexeme.text) lexeme.rest <;> rfl

/-- The tokens of a condensed text that stands at position `offset`. -/
def tokenize (names : Text → Bool) (offset : Nat) (text : Text) :
    Except Fault (List PlacedToken) :=
  tokenizeWithin names maxTokens offset text

end Assertions
