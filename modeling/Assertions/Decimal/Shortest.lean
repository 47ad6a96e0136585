import Assertions.Decimal

/-!
# The shortest decimal of a double

Many decimals read back as the same double: those in the interval between the midpoints to its
two neighbours. `shortest` finds one with the fewest digits, and of two such decimals on the same
grid the nearer one.

The search is exact. For `n = 1, 2, …` digits it looks at the grid of decimals whose last digit is
the `n`-th of the value, and tests the two points of the grid around the value. Seventeen digits
are always enough; the exact value stands behind the search so that nothing is ever guessed.
-/

namespace Assertions.Decimal

/-- Which of two decimals on one grid to take when a value lies halfway between them. -/
inductive Tie where
  /-- The upper one. -/
  | up
  /-- The one whose last digit is even. -/
  | even
deriving DecidableEq, Repr

/-- The value `mantissa * 2 ^ exponent` of a positive double. -/
structure Dyadic where
  mantissa : Nat
  exponent : Int
  /-- The gap to the double below is half the gap to the one above. -/
  narrowBelow : Bool

namespace Dyadic

/-- The value of a double given by its mantissa and exponent. The gap narrows below a power of two,
except at the bottom of the range, where doubles are evenly spaced. -/
def ofParts (mantissa : Nat) (exponent : Int) : Dyadic :=
  ⟨mantissa, exponent, mantissa == Nat.pow 2 52 && exponent > -1074⟩

/-- Whether a decimal lies among the values that round to this double. The ends of the interval do
if the mantissa is even. -/
def readsBack (x : Dyadic) (d : Decimal) : Bool :=
  let low := if x.narrowBelow then 4 * x.mantissa - 1 else 4 * x.mantissa - 2
  let high := 4 * x.mantissa + 2
  let included := x.mantissa % 2 == 0
  let fromLow := compareScaled d.digits d.exponent low (x.exponent - 2)
  let fromHigh := compareScaled d.digits d.exponent high (x.exponent - 2)
  (fromLow == .gt || (included && fromLow == .eq)) &&
    (fromHigh == .lt || (included && fromHigh == .eq))

/-- The number of whole units `10 ^ exponent` in a value. -/
def unitsIn (x : Dyadic) (exponent : Int) : Nat :=
  x.mantissa * Nat.pow 2 x.exponent.toNat * Nat.pow 10 (-exponent).toNat /
    (Nat.pow 10 exponent.toNat * Nat.pow 2 (-x.exponent).toNat)

/-- The least `k` at or after `start` with the value below `10 ^ k`, if it is among the first
`fuel`. -/
def magnitudeFrom (x : Dyadic) : (fuel : Nat) → (start : Int) → Int
  | 0, start => start
  | fuel + 1, start =>
    if compareScaled 1 start x.mantissa x.exponent == .gt then start
    else magnitudeFrom x fuel (start + 1)

/-- The least `k` with the value below `10 ^ k`. The search starts from the binary logarithm `b` of
the value, of which three tenths, less two, is too small by a few units at most. -/
def magnitude (x : Dyadic) : Int :=
  let b := (x.mantissa.log2 : Int) + x.exponent
  magnitudeFrom x 64 ((b * 30103).fdiv 100000 - 2)

/-- Of the grid points `low` and `low + 1` around the value, the one to write: the only one that
reads back, or the nearer one, or the one that `tie` prefers. -/
def pick? (tie : Tie) (x : Dyadic) (exponent : Int) : Option Decimal :=
  let low := x.unitsIn exponent
  let below : Decimal := ⟨low, exponent⟩
  let above : Decimal := ⟨low + 1, exponent⟩
  match x.readsBack below, x.readsBack above with
  | true, false => some below
  | false, true => some above
  | false, false => none
  | true, true =>
    match compareScaled (2 * low + 1) exponent x.mantissa (x.exponent + 1) with
    | .gt => some below
    | .lt => some above
    | .eq => if tie == .even && low % 2 == 0 then some below else some above

/-- The exact value as a decimal. -/
def exact (x : Dyadic) : Decimal :=
  if 0 ≤ x.exponent then ⟨x.mantissa * Nat.pow 2 x.exponent.toNat, 0⟩
  else ⟨x.mantissa * Nat.pow 5 (-x.exponent).toNat, x.exponent⟩

/-- The shortest decimal that reads back as this double. -/
def shortest (tie : Tie) (x : Dyadic) : Decimal :=
  let k := x.magnitude
  let found := (List.range 17).findSome? fun (n : Nat) => pick? tie x (k - 1 - n)
  (found.getD x.exact).stripZeros

end Dyadic

end Assertions.Decimal
