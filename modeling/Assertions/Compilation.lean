import Assertions.Evaluation
import Assertions.Expr.Reading
import Assertions.Log

/-!
# Compiled expressions

Compiling reads a text against a repertoire of functions. The result keeps that repertoire, so
functions that are registered later do not change what it means. A `Staged` result carries the
stages that compiling went through, also when it failed.
-/

namespace Assertions

/-- A result of compiling, and the stages on the way to it. -/
structure Staged (α : Type u) where
  result : Except Refusal α
  stages : List Stage

namespace Staged

variable {α : Type u} {β : Type v}

/-- One step after another, up to the first that fails. -/
def andThen (first : Staged α) (next : α → Staged β) : Staged β :=
  match first.result with
  | .error refusal => ⟨.error refusal, first.stages⟩
  | .ok value =>
    let second := next value
    ⟨second.result, first.stages ++ second.stages⟩

@[simp] theorem result_andThen (first : Staged α) (next : α → Staged β) :
    (first.andThen next).result = first.result.bind fun value => (next value).result := by
  unfold andThen
  cases first.result <;> rfl

/-- A result that no stage leads to. -/
def ok (value : α) : Staged α := ⟨.ok value, []⟩

/-- A refusal that no stage leads to. -/
def refuse (refusal : Refusal) : Staged α := ⟨.error refusal, []⟩

/-- A refusal because of a fault in the text. -/
def fault (cause : Cause) (span : Span) : Staged α := refuse (.fault ⟨cause, span⟩)

/-- What an observer reports of the stages. -/
def observedBy (staged : Staged α) (observer : Observer β) : List β :=
  staged.stages.flatMap observer

end Staged

/-- The expression of a text that stands at position `offset` of another one. The spans of the
expression count from the start of its own text, and those of faults from the start of the
other. -/
def Expr.compile (functions : Repertoire) (offset : Nat) (source : Text) : Staged Expr :=
  match lex functions.contains source with
  | .error f => .refuse (.fault (f.shift offset))
  | .ok (normalized, tokens) =>
    match Expr.ofTokens functions.contains tokens with
    | .error f => ⟨.error (.fault (f.shift offset)), [.tokens normalized tokens]⟩
    | .ok e => ⟨.ok e, [.tokens normalized tokens]⟩

/-- The result of compiling is that of reading, with its fault moved to where the text stands. -/
theorem Expr.result_compile (functions : Repertoire) (offset : Nat) (source : Text) :
    (Expr.compile functions offset source).result =
      (Expr.ofText functions.contains source).mapError fun f => .fault (f.shift offset) := by
  rw [Expr.ofText, Expr.ofFragment, fragment_eq_bind, Expr.compile, lex_eq_map]
  cases tokenize functions.contains 0 (condense source) with
  | error f => rfl
  | ok tokens =>
    show (match Expr.ofTokens functions.contains tokens with
      | .error f => (_ : Staged Expr)
      | .ok e => _).result = Except.mapError _ (Expr.ofTokens functions.contains tokens)
    cases Expr.ofTokens functions.contains tokens <;> rfl

/-- An expression together with its text and the functions it was compiled against. -/
structure Formula where
  source : Text
  expr : Expr
  functions : Repertoire

namespace Formula

/-- The formula of a text. -/
def compile (functions : Repertoire) (source : Text) : Staged Formula :=
  (Expr.compile functions 0 source).andThen fun e => .ok ⟨source, e, functions⟩

/-- The datum of a formula. -/
def evaluate (formula : Formula) (world : World) : Traced Datum :=
  formula.expr.evaluate formula.functions world

/-- Whether the datum of a formula counts as true. -/
def holds (formula : Formula) (world : World) : Traced Bool :=
  (formula.evaluate world).map Datum.isTruthy

end Formula

end Assertions
