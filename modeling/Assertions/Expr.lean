import Assertions.Operator
import Assertions.Token

/-!
# Expressions

The tree of an expression. Every leaf, call and group knows the span that it was read from. A
binary expression reaches from the start of its left operand to the end of its right one, so it
needs no span of its own.
-/

namespace Assertions

/-- An expression and where its parts were read. -/
inductive Expr where
  /-- A path into the model or the state. -/
  | ref (span : Span) (side : Side) (path : Path)
  | string (span : Span) (content : Text)
  | number (span : Span) (value : Float)
  /-- A function without brackets. -/
  | statement (span : Span) (name : Text)
  | call (span : Span) (name : Text) (args : List Expr)
  | binary (op : Operator) (left right : Expr)
  /-- An expression in brackets. -/
  | group (span : Span) (inner : Expr)

namespace Expr

/-- The span of an expression. -/
def span : Expr → Span
  | .ref span _ _ | .string span _ | .number span _ | .statement span _ | .call span _ _
  | .group span _ => span
  | .binary _ left right => ⟨left.span.start, right.span.stop⟩

mutual

/-- The expression as it is in a text that starts `offset` bytes later. -/
def shift (offset : Nat) : Expr → Expr
  | .ref span side path => .ref (span.shift offset) side path
  | .string span content => .string (span.shift offset) content
  | .number span value => .number (span.shift offset) value
  | .statement span name => .statement (span.shift offset) name
  | .call span name args => .call (span.shift offset) name (shiftAll offset args)
  | .binary op left right => .binary op (shift offset left) (shift offset right)
  | .group span inner => .group (span.shift offset) (shift offset inner)

/-- The expressions as they are in a text that starts `offset` bytes later. -/
def shiftAll (offset : Nat) : List Expr → List Expr
  | [] => []
  | e :: rest => shift offset e :: shiftAll offset rest

end

end Expr

end Assertions
