import Assertions.Symbols

/-!
# Binary operators

Each operator has a spelling and a binding strength. Readers of expressions do not look at the
strength: they go down `Operator.ladder`, a group of operators after the other.
-/

namespace Assertions

/-- The binary operators of the language. -/
inductive Operator where
  | add
  | sub
  | mul
  | div
  | mod
  | lt
  | le
  | gt
  | ge
  | eq
  | ne
  | and
  | or
deriving DecidableEq, Repr

namespace Operator

/-- The strength with which an operator binds its operands. -/
def precedence : Operator → Nat
  | mul | div | mod => 6
  | add | sub => 5
  | lt | le | gt | ge => 4
  | eq | ne => 3
  | and => 2
  | or => 1

theorem precedence_pos (op : Operator) : 0 < op.precedence := by
  cases op <;> decide

theorem precedence_le_six (op : Operator) : op.precedence ≤ 6 := by
  cases op <;> decide

/-- How an operator is written. -/
def spelling : Operator → Text
  | add => ['+']
  | sub => ['-']
  | mul => ['*']
  | div => ['/']
  | mod => ['%']
  | lt => ['<']
  | le => ['<', '=']
  | gt => ['>']
  | ge => ['>', '=']
  | eq => ['=', '=']
  | ne => ['!', '=']
  | and => ['&', '&']
  | or => ['|', '|']

/-- The operators in groups that are read together, the loosest group first. -/
def ladder : List (List Operator) :=
  [[or], [and], [eq, ne], [lt, le, gt, ge], [add, sub], [mul, div, mod]]

/-- Whether an operator can be the sign of a number. -/
def isSign : Operator → Bool
  | add | sub => true
  | _ => false

/-- The operator or bracket at the start of a text, with what is left of the text. The longest
spelling wins. -/
def read? : Text → Option (Operator × Text)
  | '<' :: '=' :: rest => some (le, rest)
  | '<' :: rest => some (lt, rest)
  | '>' :: '=' :: rest => some (ge, rest)
  | '>' :: rest => some (gt, rest)
  | '=' :: '=' :: rest => some (eq, rest)
  | '!' :: '=' :: rest => some (ne, rest)
  | '&' :: '&' :: rest => some (and, rest)
  | '|' :: '|' :: rest => some (or, rest)
  | '+' :: rest => some (add, rest)
  | '-' :: rest => some (sub, rest)
  | '*' :: rest => some (mul, rest)
  | '/' :: rest => some (div, rest)
  | '%' :: rest => some (mod, rest)
  | _ => none

/-- An operator is read where it is spelled. -/
theorem eq_of_read? {text rest : Text} {op : Operator} (h : read? text = some (op, rest)) :
    text = op.spelling ++ rest := by
  unfold read? at h
  split at h <;> cases h <;> rfl

end Operator

/-- Every operator and bracket spelling of the language. -/
def allSpellings : List Text :=
  ([.lt, .le, .eq, .ne, .ge, .gt, .add, .sub, .mul, .div, .mod] : List Operator).map
      Operator.spelling ++
    [[Symbol.openBracket], [Symbol.closeBracket]] ++ [Operator.and.spelling, Operator.or.spelling]

end Assertions
