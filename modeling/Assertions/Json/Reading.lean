import Assertions.Decimal.Reading
import Assertions.Json

/-!
# Reading JSON

`Json.read?` takes the text of one document. A number without point and exponent whose value fits
in 64 bits, signed or unsigned, is an integer, and so is written back as it was; every other number
is a double, also `-0`: the one nearest to what is written. A number too large for a double is an
error. Of two members under one key the later one stays.

Stores hold documents, not texts, and nothing else in the library reads one. This is for a host that
gets its documents as text.
-/

namespace Assertions.Json

/-- Whether a character is JSON's own whitespace. -/
def isSpace (c : Char) : Bool := c == ' ' || c == '\t' || c == '\n' || c == '\r'

/-- The text after its leading spaces. -/
def skipSpaces (text : Text) : Text := text.dropWhile isSpace

/-! ### Strings -/

/-- The value of a hexadecimal digit. -/
def hexDigit? (c : Char) : Option Nat :=
  if c.isDigit then some (c.toNat - '0'.toNat)
  else if 'a' ≤ c && c ≤ 'f' then some (c.toNat - 'a'.toNat + 10)
  else if 'A' ≤ c && c ≤ 'F' then some (c.toNat - 'A'.toNat + 10)
  else none

/-- The value of four hexadecimal digits. -/
def hexWord? (a b c d : Char) : Option Nat := do
  return (((← hexDigit? a) * 16 + (← hexDigit? b)) * 16 + (← hexDigit? c)) * 16 + (← hexDigit? d)

/-- The character that a short escape stands for. -/
def shortEscape? : Char → Option Char
  | '\x22' => some '\x22'
  | '\\' => some '\\'
  | '/' => some '/'
  | 'b' => some '\x08'
  | 'f' => some '\x0c'
  | 'n' => some '\n'
  | 'r' => some '\r'
  | 't' => some '\t'
  | _ => none

/-- The code points and surrogates of a string up to its closing quotation mark, and the text
after it. -/
def readUnits? : Text → Option (List Nat × Text)
  | '\x22' :: rest => some ([], rest)
  | '\\' :: 'u' :: a :: b :: c :: d :: rest => do
    let unit ← hexWord? a b c d
    let (units, after) ← readUnits? rest
    return (unit :: units, after)
  | '\\' :: c :: rest => do
    let escaped ← shortEscape? c
    let (units, after) ← readUnits? rest
    return (escaped.toNat :: units, after)
  | c :: rest => do
    let (units, after) ← readUnits? rest
    return (c.toNat :: units, after)
  | [] => none

/-- The characters of code points and surrogates, where each surrogate has to be one of a pair. -/
def joinSurrogates? : List Nat → Option Text
  | [] => some []
  | high :: low :: rest =>
    if 0xD800 ≤ high && high < 0xDC00 then
      if 0xDC00 ≤ low && low < 0xE000 then do
        let text ← joinSurrogates? rest
        return Char.ofNat (0x10000 + (high - 0xD800) * 0x400 + (low - 0xDC00)) :: text
      else none
    else if 0xDC00 ≤ high && high < 0xE000 then none
    else do
      let text ← joinSurrogates? (low :: rest)
      return Char.ofNat high :: text
  | [unit] => if 0xD800 ≤ unit && unit < 0xE000 then none else some [Char.ofNat unit]

/-- The string whose opening quotation mark the text follows, and the text after it. -/
def readString? (text : Text) : Option (Text × Text) := do
  let (units, after) ← readUnits? text
  return (← joinSurrogates? units, after)

/-! ### Numbers -/

/-- Digits at the start of a text, and what follows them. -/
def splitDigits (text : Text) : Text × Text :=
  (text.takeWhile Char.isDigit, text.dropWhile Char.isDigit)

/-- The exponent at the start of a text, if one is written there, and what follows it. -/
def readExponent? : Text → Option (Option Int × Text)
  | [] => some (none, [])
  | mark :: rest =>
    if mark == 'e' || mark == 'E' then
      let (negative, rest) := match rest with
        | '-' :: rest => (true, rest)
        | '+' :: rest => (false, rest)
        | rest => (false, rest)
      let (digits, after) := splitDigits rest
      if digits.isEmpty then none
      else
        let n : Int := Decimal.ofDigits digits
        some (some (if negative then -n else n), after)
    else some (none, mark :: rest)

/-- The fraction at the start of a text, if one is written there, and what follows it. -/
def readFraction? : Text → Option (Option Text × Text)
  | '.' :: rest =>
    let (digits, after) := splitDigits rest
    if digits.isEmpty then none else some (some digits, after)
  | text => some (none, text)

/-- The number without sign or with a minus at the start of a text, and what follows it. -/
def readNumber? (text : Text) : Option (Json × Text) := do
  let (negative, text) := match text with
    | '-' :: rest => (true, rest)
    | text => (false, text)
  let (whole, text) := splitDigits text
  if whole.isEmpty || (whole.length > 1 && whole.head? == some '0') then none
  else
    let (fraction, text) ← readFraction? text
    let (exponent, text) ← readExponent? text
    let n := Decimal.ofDigits whole
    let isInteger := fraction.isNone && exponent.isNone &&
      if negative then 0 < n && n ≤ Nat.pow 2 63 else n < Nat.pow 2 64
    if isInteger then return (.integer (if negative then -n else n), text)
    else
      let digits := fraction.getD []
      let x := Decimal.toFloat ⟨Decimal.ofDigits (whole ++ digits), exponent.getD 0 - digits.length⟩
      let x := if negative then -x else x
      if h : x.isFinite = true then return (.double ⟨x, h⟩, text) else none

/-! ### Documents -/

mutual

/-- The document at the start of a text, and what follows it. A level of nesting and a step along
an array or object each use one unit of `fuel`. -/
def readValue? : (fuel : Nat) → Text → Option (Json × Text)
  | 0, _ => none
  | fuel + 1, text =>
    match skipSpaces text with
    | '\x22' :: rest => (readString? rest).map fun (s, rest) => (.string s, rest)
    | '[' :: rest =>
      match skipSpaces rest with
      | ']' :: rest => some (.array [], rest)
      | rest => (readItems? fuel rest).map fun (items, rest) => (.array items, rest)
    | '\x7b' :: rest =>
      match skipSpaces rest with
      | '\x7d' :: rest => some (.object [], rest)
      | rest => (readMembers? fuel rest).map fun (members, rest) => (ofMembers members, rest)
    | text =>
      match Text.dropWord? "null".toList text with
      | some rest => some (.null, rest)
      | none =>
        match Text.dropWord? "true".toList text with
        | some rest => some (.bool true, rest)
        | none =>
          match Text.dropWord? "false".toList text with
          | some rest => some (.bool false, rest)
          | none => readNumber? text

/-- The items of an array that is not empty, up to its closing bracket, and what follows it. -/
def readItems? : (fuel : Nat) → Text → Option (List Json × Text)
  | 0, _ => none
  | fuel + 1, text => do
    let (item, rest) ← readValue? fuel text
    match skipSpaces rest with
    | ',' :: rest =>
      let (items, rest) ← readItems? fuel rest
      return (item :: items, rest)
    | ']' :: rest => return ([item], rest)
    | _ => none

/-- The members of an object that is not empty, up to its closing brace, and what follows it. -/
def readMembers? : (fuel : Nat) → Text → Option (List (Text × Json) × Text)
  | 0, _ => none
  | fuel + 1, text =>
    match skipSpaces text with
    | '\x22' :: rest => do
      let (key, rest) ← readString? rest
      match skipSpaces rest with
      | ':' :: rest =>
        let (value, rest) ← readValue? fuel rest
        match skipSpaces rest with
        | ',' :: rest =>
          let (members, rest) ← readMembers? fuel rest
          return ((key, value) :: members, rest)
        | '\x7d' :: rest => return ([(key, value)], rest)
        | _ => none
      | _ => none
    | _ => none

end

/-- The document that a text holds. Each step reads a character, so twice the length of the text is
enough fuel. -/
def read? (text : Text) : Option Json :=
  match readValue? (2 * text.length + 2) text with
  | some (value, rest) => if (skipSpaces rest).isEmpty then some value else none
  | none => none

end Assertions.Json
