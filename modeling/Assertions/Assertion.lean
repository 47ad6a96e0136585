import Assertions.Compilation

/-!
# Assertions

An assertion is an activation, a colon and a condition. The activation says when the condition has
to hold:

* `ALWAYS`: in every world;
* `WHEN(<guard>)`: in worlds in which the guard counts as true;
* the name of a function: in worlds in which that function, called without arguments, counts as
  true.

In a world in which the activation does not hold the assertion is inactive, and its condition is
not evaluated.
-/

namespace Assertions

/-- When the condition of an assertion has to hold. -/
inductive Activation where
  | always
  | guard (condition : Expr)
  | gate (name : Text)

/-- What an assertion says about a world. -/
inductive Verdict where
  /-- The activation does not hold. -/
  | inactive
  | satisfied
  | violated
deriving DecidableEq, Repr

namespace Verdict

/-- The verdict of an active assertion whose condition has a truth value. -/
def ofCondition (holds : Bool) : Verdict := if holds then satisfied else violated

/-- The name of a verdict. -/
def name : Verdict → String
  | inactive => "inactive"
  | satisfied => "satisfied"
  | violated => "violated"

end Verdict

/-- A compiled assertion. -/
structure Assertion where
  source : Text
  activation : Activation
  condition : Expr
  functions : Repertoire

/-! ### Compiling -/

/-- The activation that a condensed text denotes. -/
def Activation.compile (functions : Repertoire) (text : Text) : Staged Activation :=
  if text == Symbol.always then .ok .always
  else
    match Text.dropWord? (Symbol.when ++ [Symbol.openBracket]) text with
    | some rest =>
      let opening := Text.size Symbol.when
      match enclosed? rest with
      | none => .fault .openGuard ⟨opening, opening + 1⟩
      | some (inside, []) =>
        (Expr.compile functions (opening + 1) inside).andThen fun e => .ok (.guard e)
      | some (inside, _ :: _) =>
        .fault .afterGuard ⟨opening + 1 + Text.size inside + 1, Text.size text⟩
    | none =>
      if isFunctionName text then
        if functions.contains text then .ok (.gate text)
        else .fault (.unknownFunction text) ⟨0, Text.size text⟩
      else .refuse (.badActivation text)

/-- The assertion of a text. Spans of faults are positions in the condensed text. -/
def Assertion.compile (functions : Repertoire) (source : Text) : Staged Assertion :=
  let text := condense source
  match Literal.splitOutside? Symbol.colon text with
  | none => .fault .noSeparator ⟨Text.size text, Text.size text⟩
  | some (before, after) =>
    Staged.andThen ⟨.ok (), [.split before after]⟩ fun () =>
      (Activation.compile functions before).andThen fun activation =>
        (Expr.compile functions (Text.size before + 1) after).andThen fun condition =>
          ⟨.ok ⟨source, activation, condition, functions⟩, [.compiled source]⟩

/-- A text without a separator is no assertion. -/
theorem Assertion.result_compile_of_none (functions : Repertoire) {source : Text}
    (h : Literal.splitOutside? Symbol.colon (condense source) = none) :
    (Assertion.compile functions source).result = .error (.fault ⟨.noSeparator,
      ⟨Text.size (condense source), Text.size (condense source)⟩⟩) := by
  unfold Assertion.compile
  simp only [h]
  rfl

/-- An assertion is what the texts before and after its separator are compiled to. -/
theorem Assertion.result_compile_of_some (functions : Repertoire) {source before after : Text}
    (h : Literal.splitOutside? Symbol.colon (condense source) = some (before, after)) :
    (Assertion.compile functions source).result =
      (Activation.compile functions before).result.bind fun activation =>
        (Expr.compile functions (Text.size before + 1) after).result.map fun condition =>
          ⟨source, activation, condition, functions⟩ := by
  unfold Assertion.compile
  simp only [h, Staged.result_andThen]
  rfl

/-! ### Checking -/

namespace Assertion

/-- Whether the condition has to hold in a world. -/
def isActive (assertion : Assertion) (world : World) : Traced Bool :=
  match assertion.activation with
  | .always => .pure true
  | .guard e => (e.evaluate assertion.functions world).map Datum.isTruthy
  | .gate name => (assertion.functions.call world name (.pure [])).map Datum.isTruthy

/-- What the assertion says about a world. -/
def check (assertion : Assertion) (world : World) : Traced Verdict :=
  (assertion.isActive world).andThen fun active =>
    if active then
      (assertion.condition.evaluate assertion.functions world).map fun datum =>
        Verdict.ofCondition datum.isTruthy
    else .pure .inactive

/-- Whether a world does not violate the assertion. -/
def holds (assertion : Assertion) (world : World) : Traced Bool :=
  (assertion.check world).map (· != .violated)

end Assertion

end Assertions
