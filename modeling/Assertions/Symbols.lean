import Assertions.Text

/-!
# Symbols of the assertion language

The fixed characters and keywords of the language, its limits, and the two classes of names:

* a word is made of ASCII letters, digits and the low line;
* an identifier is a word that does not start with a digit;
* `ALWAYS` and `WHEN` are identifiers that no function may take.
-/

namespace Assertions

namespace Symbol

/-- Starts a reference into the model. -/
def model : Char := '$'

/-- Starts a reference into the state. -/
def state : Char := '#'

/-- Delimits a string literal. There is no way to write it inside one. -/
def quote : Char := '\x27'

/-- The character that no string literal may hold. -/
def forbidden : Char := '\x60'

/-- Separates the activation of an assertion from its condition. -/
def colon : Char := ':'

/-- Separates the arguments of a call. -/
def comma : Char := ','

/-- Separates the segments of a path. -/
def dot : Char := '.'

/-- Opens a group, an argument list or a guard. -/
def openBracket : Char := '('

/-- Closes what `openBracket` opened. -/
def closeBracket : Char := ')'

/-- The activation of an assertion that always applies. -/
def always : Text := ['A', 'L', 'W', 'A', 'Y', 'S']

/-- The start of the activation of an assertion that applies under a bracketed guard. -/
def when : Text := ['W', 'H', 'E', 'N']

end Symbol

/-- The most tokens that one expression may have. -/
def maxTokens : Nat := 1000

/-- The most brackets and calls that may enclose one position of an expression. -/
def maxNesting : Nat := 64

/-! ### Words, identifiers and keywords -/

/-- Word characters make up identifiers and the segments of paths. -/
def isWordChar (c : Char) : Bool := c.isAlphanum || c == '_'

/-- An identifier may start with a word character that is not a digit. -/
def isNameStart (c : Char) : Bool := c.isAlpha || c == '_'

/-- Whether a text is a word that does not start with a digit. -/
def isIdentifier : Text → Bool
  | [] => false
  | c :: rest => isNameStart c && rest.all isWordChar

/-- Whether a text is one of the two activation keywords. -/
def isKeyword (name : Text) : Bool := name == Symbol.always || name == Symbol.when

/-- Whether a function may be registered under a name. -/
def isFunctionName (name : Text) : Bool := isIdentifier name && !isKeyword name

theorem isWordChar_of_isNameStart (c : Char) (h : isNameStart c = true) : isWordChar c = true := by
  simp only [isNameStart, isWordChar, Char.isAlphanum, Bool.or_eq_true] at *
  rcases h with h | h
  · exact Or.inl (Or.inl h)
  · exact Or.inr h

/-- An identifier consists of word characters. -/
theorem all_isWordChar_of_isIdentifier (name : Text) (h : isIdentifier name = true) :
    name.all isWordChar = true := by
  cases name with
  | nil => rfl
  | cons c rest =>
    simp only [isIdentifier, Bool.and_eq_true] at h
    simp only [List.all_cons, Bool.and_eq_true]
    exact ⟨isWordChar_of_isNameStart c h.1, h.2⟩

end Assertions
