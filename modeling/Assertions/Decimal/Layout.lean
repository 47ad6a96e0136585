import Assertions.Decimal.Shortest
import Assertions.Number

/-!
# How numbers are written

A `Layout` holds every decision about the text of a double, and `Layout.write` follows it. The
language has two: `Layout.plain` for the text of a value, and `Layout.json` inside compact JSON.
-/

namespace Assertions.Decimal

/-- The decisions about the text of a double. `e` stands for the exponent of the leading digit. -/
structure Layout where
  /-- Which of two equally near and equally short decimals is written. -/
  tie : Tie
  /-- Numbers with `e` in this range are written without an exponent, all numbers if there is no
  range. -/
  positional : Option (Int × Int)
  /-- An integral number without an exponent ends in a point and a zero. -/
  pointZero : Bool

/-- The text of a value: never an exponent, no point on integral numbers. -/
def Layout.plain : Layout where
  tie := .up
  positional := none
  pointZero := false

/-- A double inside compact JSON: an exponent below `0.00001` and from `10 ^ 16` on, and otherwise
a point that tells it from an integer. -/
def Layout.json : Layout where
  tie := .even
  positional := some (-5, 15)
  pointZero := true

namespace Layout

/-- The text of a decimal without an exponent. -/
def positionalText (layout : Layout) (d : Decimal) : Text :=
  let digits := digitsOf d.digits
  if 0 ≤ d.exponent then
    digits ++ List.replicate d.exponent.toNat '0' ++ (if layout.pointZero then ['.', '0'] else [])
  else
    let places := (-d.exponent).toNat
    if places < digits.length then
      digits.take (digits.length - places) ++ '.' :: digits.drop (digits.length - places)
    else '0' :: '.' :: List.replicate (places - digits.length) '0' ++ digits

/-- The text of a decimal with one digit before the point and an exponent that has a sign. -/
def scientificText (d : Decimal) : Text :=
  let digits := digitsOf d.digits
  let exponent := d.exponent + digits.length - 1
  let fraction := digits.drop 1
  digits.take 1 ++ (if fraction.isEmpty then [] else '.' :: fraction) ++
    'e' :: (if 0 ≤ exponent then '+' else '-') :: digitsOf exponent.natAbs

/-- The text of a decimal that is not zero. -/
def decimalText (layout : Layout) (d : Decimal) : Text :=
  let leading := d.exponent + (digitsOf d.digits).length - 1
  match layout.positional with
  | none => layout.positionalText d
  | some (low, high) =>
    if low ≤ leading && leading ≤ high then layout.positionalText d else scientificText d

/-- The text of a number. -/
def write (layout : Layout) (x : Float) : Text :=
  let sign (s : Float.Model.UnpackedFloat.Sign) : Text := if Number.isNegative s then ['-'] else []
  match Number.unpack x with
  | .notANumber => ['N', 'a', 'N']
  | .infinity s => sign s ++ ['i', 'n', 'f']
  | .zero s => sign s ++ '0' :: (if layout.pointZero then ['.', '0'] else [])
  | .finite s mantissa exponent _ =>
    sign s ++ layout.decimalText ((Dyadic.ofParts mantissa exponent).shortest layout.tie)

end Layout

end Assertions.Decimal
