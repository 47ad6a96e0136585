import Assertions.Datum.Comparison
import Assertions.Operator

/-!
# Operators on data

What a binary operator makes of the data of its operands. Arithmetic on anything but numbers is
missing, with one exception: `+` joins the texts of its operands if one of them is a string and
none is missing. Comparisons are always true or false.
-/

namespace Assertions.Datum

/-- An operation on two numbers. -/
def onNumbers (f : Float → Float → Float) : Datum → Datum → Datum
  | .number a, .number b => .number (f a b)
  | _, _ => .missing

/-- The sum of two numbers, or the joined texts of two data of which one is a string. -/
def add : Datum → Datum → Datum
  | .missing, _ => .missing
  | _, .missing => .missing
  | .string a, b => .string (a ++ b.toText)
  | a, .string b => .string (a.toText ++ b)
  | a, b => onNumbers (· + ·) a b

/-- Whether two data are in an order that `accepts` accepts. Data without an order are not. -/
def ordered (accepts : Ordering → Bool) (a b : Datum) : Datum := .bool ((compare? a b).any accepts)

/-- The result of an operator whose operands are both evaluated. The logical operators give the
truth value of their operands. -/
def apply : Operator → Datum → Datum → Datum
  | .add, a, b => add a b
  | .sub, a, b => onNumbers (· - ·) a b
  | .mul, a, b => onNumbers (· * ·) a b
  | .div, a, b => onNumbers (· / ·) a b
  | .mod, a, b => onNumbers Number.remainder a b
  | .eq, a, b => .bool (equals a b)
  | .ne, a, b => .bool (!equals a b)
  | .lt, a, b => ordered (· == .lt) a b
  | .le, a, b => ordered (· != .gt) a b
  | .gt, a, b => ordered (· == .gt) a b
  | .ge, a, b => ordered (· != .lt) a b
  | .and, a, b => .bool (a.isTruthy && b.isTruthy)
  | .or, a, b => .bool (a.isTruthy || b.isTruthy)

end Assertions.Datum
