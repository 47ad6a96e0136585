import Assertions.Datum

/-!
# Comparing data

Two data are `same` if they are of one kind and equal as such, where missing is the same as
missing. The operator `==` is `equals`, which differs in one point: what is missing equals nothing,
not even itself. Order is defined between two numbers and between two strings only.
-/

namespace Assertions.Datum

/-- Whether two data are of one kind and equal. -/
def same : Datum → Datum → Bool
  | .missing, .missing => true
  | .null, .null => true
  | .bool a, .bool b => a == b
  | .number a, .number b => Number.compare? a b == some .eq
  | .string a, .string b => a == b
  | .array a, .array b => Json.equalItems a b
  | .object a, .object b => Json.equalMembers a b
  | _, _ => false

/-- Whether two data are equal in the language. -/
def equals (a b : Datum) : Bool := !a.isMissing && !b.isMissing && same a b

/-- The order of two data, where there is one. Strings are in the order of their code points. -/
def compare? : Datum → Datum → Option Ordering
  | .number a, .number b => Number.compare? a b
  | .string a, .string b => some (compare a b)
  | _, _ => none

end Assertions.Datum
