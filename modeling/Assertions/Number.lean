/-!
# Numbers

The numbers of the language are the doubles of `Float`. Besides the operations that core gives,
the language needs some that look at the exact value of a double, which is a signed natural number
times a power of two:

* `compare?` orders two numbers, unless one of them is not a number;
* `isTruthy` tells the numbers that count as true;
* `toInteger?` and `ofInteger` go between doubles and integers;
* `remainder` is the remainder of a division whose quotient is cut towards zero.
-/

namespace Assertions.Number

open Float.Model (UnpackedFloat Format)

/-- The value of a double: a sign and a magnitude, or not a number. -/
def unpack (x : Float) : UnpackedFloat := x.toModel.unpack

/-- The double nearest to a value, the even one of two that are equally near. -/
def nearest (negative : Bool) (mantissa : Nat) (exponent : Int) : Float :=
  let sign := if negative then .negative else .positive
  .ofModel <| .pack <|
    if mantissa = 0 then .zero sign else UnpackedFloat.round Format.binary64 sign mantissa exponent

/-- How two numbers compare. Nothing compares with what is not a number, and both zeros are
equal. -/
def compare? (x y : Float) : Option Ordering := Float.Model.compare x.toModel y.toModel

/-- A number counts as true unless it is a zero or not a number. -/
def isTruthy (x : Float) : Bool :=
  match unpack x with
  | .zero _ | .notANumber => false
  | .finite .. | .infinity _ => true

/-- Whether a sign is the negative one. -/
def isNegative : UnpackedFloat.Sign → Bool
  | .negative => true
  | .positive => false

/-! ### Integers -/

/-- The integer that a double equals, if it equals one. -/
def toInteger? (x : Float) : Option Int :=
  match unpack x with
  | .zero _ => some 0
  | .finite sign mantissa exponent _ =>
    if 0 ≤ exponent then some (sign.apply (mantissa * Nat.pow 2 exponent.toNat))
    else if mantissa % Nat.pow 2 (-exponent).toNat = 0 then
      some (sign.apply (mantissa / Nat.pow 2 (-exponent).toNat))
    else none
  | .infinity _ | .notANumber => none

/-- The double nearest to an integer. -/
def ofInteger (i : Int) : Float := .ofModel (.ofInt i)

/-! ### Remainder -/

/-- The remainder of the division of `x` by `y`, with the sign of `x` and less than `y` in
magnitude. It is exact: the magnitudes are brought to one exponent and divided as naturals. -/
def remainder (x y : Float) : Float :=
  match unpack x, unpack y with
  | .notANumber, _ | _, .notANumber | .infinity _, _ | _, .zero _ =>
    .ofModel (.pack .notANumber)
  | .zero _, _ | _, .infinity _ => x
  | .finite sign m₁ e₁ _, .finite _ m₂ e₂ _ =>
    let exponent := min e₁ e₂
    nearest (isNegative sign)
      (m₁ * Nat.pow 2 (e₁ - exponent).toNat % (m₂ * Nat.pow 2 (e₂ - exponent).toNat)) exponent

end Assertions.Number
