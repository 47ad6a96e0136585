import Assertions.Proofs.AssertionGrammar
import Assertions.Proofs.References

/-!
# Verdicts and formulas

Checking an assertion is evaluating an expression, made up of the guard and the condition as they
are evaluated by themselves. A guard is asked first, and the condition only if it counts as true, so
a guarded assertion does what the operator `&&` does between its guard and its condition, with the
same calls in the same order (`check_guarded`). The name of a function stands for a guard that
calls that function, however the call is written.
-/

namespace Assertions

/-! ### Expressions -/

variable {functions : Repertoire}

/-- The operator `&&` has the truth value of both operands together. -/
theorem Expr.value_evaluate_and (world : World) (left right : Expr) :
    ((Expr.binary .and left right).evaluate functions world).value =
      .bool ((left.evaluate functions world).value.isTruthy &&
        (right.evaluate functions world).value.isTruthy) := by
  rw [Expr.evaluate, Traced.value_andThen]
  cases hleft : (left.evaluate functions world).value.isTruthy with
  | false => simp [Operator.isDecidedBy, hleft, Traced.pure]
  | true => simp [Operator.isDecidedBy, hleft, Traced.map, Datum.apply]

/-- A call without arguments is written with nothing between its brackets. -/
theorem ofText_call_nil {names : Text → Bool} {name : Text} (hname : isIdentifier name = true)
    (hknown : names name = true) :
    ∃ span, Expr.ofText names (name ++ [Symbol.openBracket, Symbol.closeBracket]) =
      .ok (.call span name []) := by
  have hspelled : (Phrase.call name []).IsSpelled names := .call hname hknown nofun nofun
  have hread := (hspelled.isReadable_of_leaf rfl).ofText_of_spaced (.refl false _)
  have htext : (Phrase.call name []).text =
      name ++ [Symbol.openBracket, Symbol.closeBracket] := by
    simp [Phrase.text, Phrase.texts, joinCommas]
  rw [htext] at hread
  exact ⟨_, hread⟩

/-! ### Truth values -/

namespace Verdict

variable {guard condition : Bool}

/-- The verdict by the truth values of a guard and a condition. -/
def ofGuarded (guard condition : Bool) : Verdict :=
  if guard then ofCondition condition else inactive

theorem ofGuarded_eq_inactive : ofGuarded guard condition = inactive ↔ guard = false := by
  cases guard <;> cases condition <;> decide

theorem ofGuarded_eq_satisfied :
    ofGuarded guard condition = satisfied ↔ (guard && condition) = true := by
  cases guard <;> cases condition <;> decide

theorem ofGuarded_eq_violated :
    ofGuarded guard condition = violated ↔ guard = true ∧ (guard && condition) ≠ true := by
  cases guard <;> cases condition <;> decide

end Verdict

/-! ### Checking -/

namespace Assertion

variable {source before condition : Text} {activation : Activation} {g c : Expr}

/-- The text of an assertion with a guard. -/
def guardedText (guard condition : Text) : Text :=
  Symbol.when ++ Symbol.openBracket :: guard ++ Symbol.closeBracket :: Symbol.colon :: condition

/-- An activation without blanks in front of a condition makes up an assertion. -/
theorem isCut_of_tight (hbefore : Tight before)
    (hdenotes : Activation.Denotes functions before activation)
    (hcondition : Expr.ofText functions.contains condition = .ok c) :
    IsCut functions (before ++ Symbol.colon :: condition) before (condense condition)
      activation c where
  condense_eq := by
    have hcolon : Tight [Symbol.colon] := fun _ => rfl
    have hcondense := (hbefore.append hcolon) condition
    simpa [condense] using hcondense
  denotes := hdenotes
  condition_eq := by
    rw [Expr.ofText, condense_condense]
    exact hcondition

/-- The name of a function makes up an assertion with any condition. -/
theorem isCut_gate {name : Text} (hname : functions.contains name = true)
    (hcondition : Expr.ofText functions.contains condition = .ok c) :
    IsCut functions (name ++ Symbol.colon :: condition) name (condense condition) (.gate name)
      c := by
  have htext := SelfContained.of_isIdentifier (Repertoire.isIdentifier_of_contains hname)
  exact isCut_of_tight htext.tight (.gate hname) hcondition

theorem isCut_always (hcondition : Expr.ofText functions.contains condition = .ok c) :
    IsCut functions (Symbol.always ++ Symbol.colon :: condition) Symbol.always
      (condense condition) .always c :=
  isCut_of_tight (fun _ => rfl) .always hcondition

/-- An assertion that is always active has the verdict of its condition. -/
theorem value_check_always (world : World) :
    (check ⟨source, .always, c, functions⟩ world).value =
      .ofGuarded true (c.evaluate functions world).value.isTruthy := rfl

/-- A guarded assertion has the verdict of its condition where its guard counts as true, and does
what `&&` does between the two. -/
theorem check_guarded (world : World) :
    check ⟨source, .guard g, c, functions⟩ world =
      ⟨.ofGuarded (g.evaluate functions world).value.isTruthy
          (c.evaluate functions world).value.isTruthy,
        ((Expr.binary .and g c).evaluate functions world).events⟩ := by
  rw [Expr.evaluate]
  cases hguard : (g.evaluate functions world).value.isTruthy with
  | false =>
    simp [check, isActive, Traced.andThen, Traced.map, Traced.pure, Operator.isDecidedBy, hguard,
      Verdict.ofGuarded]
  | true =>
    simp [check, isActive, Traced.andThen, Traced.map, Operator.isDecidedBy, hguard,
      Verdict.ofGuarded]

/-- A gate does what the guard does that names the function, with brackets or without. -/
theorem check_gate (world : World) (name : Text) (span : Span) :
    check ⟨source, .gate name, c, functions⟩ world =
        check ⟨source, .guard (.statement span name), c, functions⟩ world ∧
      check ⟨source, .gate name, c, functions⟩ world =
        check ⟨source, .guard (.call span name []), c, functions⟩ world := by
  constructor
  · simp only [check, isActive, Expr.evaluate]
  · simp only [check, isActive, Expr.evaluate, Expr.evaluateAll]

/-- Whether an assertion is about a guard and a condition what `&&` is between them, in one world:
inactive where the guard is not true, satisfied where `&&` is, violated otherwise, with the events
of `&&`. -/
structure IsConjunction (assertion : Assertion) (g c : Formula) (world : World) : Prop where
  inactive_iff : (assertion.check world).value = .inactive ↔
    (g.evaluate world).value.isTruthy = false
  satisfied_iff : (assertion.check world).value = .satisfied ↔
    ((Expr.binary .and g.expr c.expr).evaluate assertion.functions world).value = .bool true
  violated_iff : (assertion.check world).value = .violated ↔
    (g.evaluate world).value.isTruthy = true ∧
      ((Expr.binary .and g.expr c.expr).evaluate assertion.functions world).value ≠ .bool true
  events_eq : (assertion.check world).events =
    ((Expr.binary .and g.expr c.expr).evaluate assertion.functions world).events

theorem isConjunction_guarded (guard condition : Text) (world : World) :
    IsConjunction ⟨source, .guard g, c, functions⟩ ⟨guard, g, functions⟩ ⟨condition, c, functions⟩
      world where
  inactive_iff := by
    rw [check_guarded]
    exact Verdict.ofGuarded_eq_inactive
  satisfied_iff := by
    rw [check_guarded, Expr.value_evaluate_and, Datum.bool.injEq]
    exact Verdict.ofGuarded_eq_satisfied
  violated_iff := by
    rw [check_guarded, Expr.value_evaluate_and, Ne, Datum.bool.injEq]
    exact Verdict.ofGuarded_eq_violated
  events_eq := by rw [check_guarded]

end Assertion

/-- **Verdicts.** Take a condition that can be compiled. With a guard that can be compiled it makes
up an assertion that does what `&&` does between the two. With the keyword it makes up an assertion
that is never inactive and is satisfied where the condition counts as true. With the name of a
function it makes up an assertion that does the same as the two with a guard that calls the
function, with brackets or without. -/
theorem check_agrees {condition : Text} {c : Formula}
    (hcondition : (Formula.compile functions condition).result = .ok c) :
    (∀ guard g, (Formula.compile functions guard).result = .ok g →
      ∃ assertion, (Assertion.compile functions
          (Assertion.guardedText guard condition)).result = .ok assertion ∧
        ∀ world, assertion.IsConjunction g c world) ∧
    (∃ assertion, (Assertion.compile functions
        (Symbol.always ++ Symbol.colon :: condition)).result = .ok assertion ∧
      ∀ world, (assertion.check world).value ≠ .inactive ∧
        ((assertion.check world).value = .satisfied ↔ (c.holds world).value = true) ∧
        (assertion.check world).events = (c.holds world).events) ∧
    ∀ name, functions.contains name = true → ∃ gate statement call,
      (Assertion.compile functions (name ++ Symbol.colon :: condition)).result = .ok gate ∧
      (Assertion.compile functions
        (Assertion.guardedText name condition)).result = .ok statement ∧
      (Assertion.compile functions (Assertion.guardedText
        (name ++ [Symbol.openBracket, Symbol.closeBracket]) condition)).result = .ok call ∧
      ∀ world, gate.check world = statement.check world ∧ gate.check world = call.check world := by
  obtain ⟨c, hc, rfl⟩ := Formula.result_compile_eq_ok_iff.1 hcondition
  refine ⟨?_, ?_, ?_⟩
  · intro guard g hguard
    obtain ⟨g, hg, rfl⟩ := Formula.result_compile_eq_ok_iff.1 hguard
    exact ⟨_, (Assertion.isCut_guarded hg hc).result_compile,
      Assertion.isConjunction_guarded guard condition⟩
  · refine ⟨_, (Assertion.isCut_always hc).result_compile, fun world => ⟨?_, ?_, ?_⟩⟩
    · intro hinactive
      rw [Assertion.value_check_always, Verdict.ofGuarded_eq_inactive] at hinactive
      cases hinactive
    · rw [Assertion.value_check_always, Verdict.ofGuarded_eq_satisfied]
      rfl
    · rfl
  · intro name hname
    have hidentifier := Repertoire.isIdentifier_of_contains hname
    have hstatement := ofText_statement hidentifier hname
    obtain ⟨span, hcall⟩ := ofText_call_nil hidentifier hname
    refine ⟨_, _, _, (Assertion.isCut_gate hname hc).result_compile,
      (Assertion.isCut_guarded hstatement hc).result_compile,
      (Assertion.isCut_guarded hcall hc).result_compile, fun world => ⟨?_, ?_⟩⟩
    · exact (Assertion.check_gate world name _).1
    · exact (Assertion.check_gate world name _).2

/-- A function as the gate and in the guard of a condition that calls it. -/
theorem check_agrees_gate :
    ∃ functions : Repertoire,
      Repertoire.empty.register ['f'] (.function fun _ args => .bool args.isEmpty) =
        .ok functions ∧
      ∃ gate call,
        (Assertion.compile functions ['f', ':', 'f', '(', ')']).result = .ok gate ∧
        (Assertion.compile functions ['W', 'H', 'E', 'N', '(', 'f', '(', ')', ')', ':', 'f', '(',
          ')']).result = .ok call ∧
        ∀ world, gate.check world = call.check world := by
  obtain ⟨functions, hfunctions⟩ : ∃ functions, Repertoire.empty.register ['f']
    (.function fun _ args => .bool args.isEmpty) = .ok functions := ⟨_, rfl⟩
  have hname : functions.contains ['f'] = true := by
    rw [Repertoire.contains_of_register hfunctions]
    rfl
  obtain ⟨span, hread⟩ := ofText_call_nil rfl hname
  have hcondition : (Formula.compile functions ['f', '(', ')']).result = .ok _ :=
    Formula.result_compile_eq_ok_iff.2 ⟨_, hread, rfl⟩
  obtain ⟨gate, statement, call, hgate, -, hcall, hcheck⟩ :=
    (check_agrees hcondition).2.2 ['f'] hname
  exact ⟨functions, hfunctions, gate, call, hgate, hcall, fun world => (hcheck world).2⟩

end Assertions
