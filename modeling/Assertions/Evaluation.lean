import Assertions.Datum.Arithmetic
import Assertions.Evaluation.Trace
import Assertions.Expr
import Assertions.Host

/-!
# Evaluation

Evaluating an expression never fails: what cannot be computed is missing. Operands are evaluated
from left to right, arguments before their call, and the right operand of a logical operator only
if the left one leaves the result open. A name that is not registered is missing, and its arguments
are not evaluated.
-/

namespace Assertions

/-- Whether the left operand alone decides the result of a logical operator. -/
def Operator.isDecidedBy : Operator → Datum → Bool
  | .and, left => !left.isTruthy
  | .or, left => left.isTruthy
  | _, _ => false

/-- The call of a name with arguments, which happen only if the name is registered. -/
def Repertoire.call (functions : Repertoire) (world : World) (name : Text)
    (args : Traced (List Datum)) : Traced Datum :=
  match functions.find? name with
  | none => ⟨.missing, [.unregistered name]⟩
  | some f => args.andThen fun data => ⟨f.result world data, [.called name (f.seen data)]⟩

namespace Expr

mutual

/-- The datum of an expression, with the calls made for it. -/
def evaluate (functions : Repertoire) (world : World) : Expr → Traced Datum
  | .ref _ side path => .pure (world.lookup side path)
  | .string _ content => .pure (.string content)
  | .number _ value => .pure (.number value)
  | .statement _ name => functions.call world name (.pure [])
  | .call _ name args => functions.call world name (evaluateAll functions world args)
  | .binary op left right =>
    (evaluate functions world left).andThen fun a =>
      if op.isDecidedBy a then .pure (.bool a.isTruthy)
      else (evaluate functions world right).map (Datum.apply op a)
  | .group _ inner => evaluate functions world inner

/-- The data of expressions, one after the other. -/
def evaluateAll (functions : Repertoire) (world : World) : List Expr → Traced (List Datum)
  | [] => .pure []
  | e :: rest =>
    (evaluate functions world e).andThen fun datum =>
      (evaluateAll functions world rest).map (datum :: ·)

end

end Expr

end Assertions
