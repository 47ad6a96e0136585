import Assertions.Text

/-!
# Decimals

A decimal is a natural number of units, where a unit is a power of ten. This file also writes and
reads runs of digits.
-/

namespace Assertions

/-- The value `digits * 10 ^ exponent`. -/
structure Decimal where
  digits : Nat
  exponent : Int
deriving DecidableEq, Repr

namespace Decimal

/-- The digits of a natural number, without leading zeros. -/
def digitsOf (n : Nat) : Text := Nat.toDigits 10 n

/-- The number that a run of digits denotes. -/
def ofDigits (digits : Text) : Nat :=
  digits.foldl (fun n c => 10 * n + (c.toNat - '0'.toNat)) 0

/-- The text of an integer: a minus sign for a negative one, then the digits. -/
def ofInteger : Int → Text
  | .ofNat n => digitsOf n
  | .negSucc n => '-' :: digitsOf (n + 1)

/-- Compare `a * 10 ^ i` with `n * 2 ^ j`, exactly. -/
def compareScaled (a : Nat) (i : Int) (n : Nat) (j : Int) : Ordering :=
  compare (a * Nat.pow 10 i.toNat * Nat.pow 2 (-j).toNat)
    (n * Nat.pow 2 j.toNat * Nat.pow 10 (-i).toNat)

/-- The same value with no zero at the end of its digits. -/
def stripZeros (d : Decimal) : Decimal :=
  go d.digits d
where
  /-- At most `fuel` zeros are dropped, which is enough when it is the number of units. -/
  go : Nat → Decimal → Decimal
    | 0, d => d
    | fuel + 1, d =>
      if d.digits ≠ 0 ∧ d.digits % 10 = 0 then go fuel ⟨d.digits / 10, d.exponent + 1⟩ else d

end Decimal

end Assertions
