import Assertions.Decimal
import Assertions.Symbols

/-!
# Reading numbers

* `literalValue` gives the double of a number literal, which is a run of digits with at most one
  dot among them;
* `readFloat?` reads any text that `Layout.plain` writes, and also exponents, a plus sign and the
  spelled-out names of the special values.

Both round correctly: the result is the double nearest to the decimal that was written.
-/

namespace Assertions.Decimal

/-- The decimal that digits with at most one dot among them denote. -/
def ofLiteral (text : Text) : Decimal :=
  let whole := text.takeWhile (· != Symbol.dot)
  let fraction := (text.dropWhile (· != Symbol.dot)).drop 1
  ⟨ofDigits (whole ++ fraction), -fraction.length⟩

/-- The double nearest to a decimal. -/
def toFloat (d : Decimal) : Float :=
  if 0 ≤ d.exponent then Float.ofScientific d.digits false d.exponent.toNat
  else Float.ofScientific d.digits true (-d.exponent).toNat

/-- The double nearest to what a number literal denotes. -/
def literalValue (text : Text) : Float := (ofLiteral text).toFloat

/-! ### Numbers with signs and exponents -/

/-- Whether a text is digits with at most one dot and at least one digit. -/
def isLiteral (text : Text) : Bool :=
  text.all (fun c => c.isDigit || c == Symbol.dot) && text.any Char.isDigit &&
    text.count Symbol.dot ≤ 1

/-- A sign in front of a text, if there is one: whether it is a minus, and what follows it. -/
def splitSign : Text → Bool × Text
  | '-' :: rest => (true, rest)
  | '+' :: rest => (false, rest)
  | text => (false, text)

/-- The integer that an optional sign and digits denote. -/
def readInteger? (text : Text) : Option Int :=
  let (negative, digits) := splitSign text
  if digits.isEmpty || !digits.all Char.isDigit then none
  else some (if negative then -(ofDigits digits : Int) else ofDigits digits)

/-- The double that a text denotes. -/
def readFloat? (text : Text) : Option Float :=
  let (negative, rest) := splitSign text
  let signed (x : Float) : Float := if negative then -x else x
  let name := rest.map Char.toLower
  if name == "nan".toList then some (signed (0.0 / 0.0))
  else if name == "inf".toList || name == "infinity".toList then some (signed (1.0 / 0.0))
  else
    let isMark (c : Char) : Bool := c == 'e' || c == 'E'
    let mantissa := rest.takeWhile (!isMark ·)
    let exponent := match rest.dropWhile (!isMark ·) with
      | [] => some 0
      | _ :: digits => readInteger? digits
    match isLiteral mantissa, exponent with
    | true, some e =>
      let d := ofLiteral mantissa
      some (signed (toFloat ⟨d.digits, d.exponent + e⟩))
    | _, _ => none

end Assertions.Decimal
