import Assertions.Proofs.CallOrder
import Assertions.Proofs.Verdicts

/-!
# Known names

What has been compiled calls registered functions only, so no evaluation of it comes upon a name
that is not registered, whichever functions were added since. The steps of an evaluation say where
such a name would show up (`Expr.isTrace_trace`), and reading lets none through
(`Expr.callsOnly_of_ofText`).

In the other direction every registered name can be compiled: as a statement, as a call without
arguments and as the activation of an assertion.
-/

namespace Assertions

/-! ### Evaluations without remarks -/

/-- Whether nothing happened but calls of functions. -/
def Traced.OnlyCalls {α : Type u} (t : Traced α) : Prop :=
  ∀ event ∈ t.events, ∃ name args, event = .called name args

namespace Traced.OnlyCalls

variable {α : Type u} {β : Type v} {t : Traced α}

theorem pure (value : α) : (Traced.pure value).OnlyCalls := nofun

theorem map (h : t.OnlyCalls) (f : α → β) : (t.map f).OnlyCalls := h

theorem andThen {next : α → Traced β} (h : t.OnlyCalls) (hnext : (next t.value).OnlyCalls) :
    (t.andThen next).OnlyCalls := by
  intro event hevent
  rcases List.mem_append.1 hevent with hfirst | hsecond
  · exact h event hfirst
  · exact hnext event hsecond

/-- Calls that could be made leave no log entry. -/
theorem logEntries_eq_nil (h : t.OnlyCalls) : logEntries t.events = [] := by
  refine List.filterMap_eq_nil_iff.2 fun event hevent => ?_
  obtain ⟨name, args, rfl⟩ := h event hevent
  rfl

end Traced.OnlyCalls

/-! ### Names that are called -/

variable {functions wider : Repertoire}

theorem Expr.CallsOnly.mono {names more : Text → Bool} {e : Expr} (h : e.CallsOnly names)
    (hmore : ∀ name, names name = true → more name = true) : e.CallsOnly more :=
  fun n hn name hname => hmore name (h n hn name hname)

/-- An expression with known names only makes calls, and nothing else happens. -/
theorem Expr.CallsOnly.onlyCalls {e : Expr} (h : e.CallsOnly functions.contains) (world : World) :
    (e.evaluate functions world).OnlyCalls := by
  intro event hevent
  rw [events_evaluate_eq_map_trace] at hevent
  obtain ⟨⟨⟨place, n⟩, event⟩, hstep, rfl⟩ := List.mem_map.1 hevent
  obtain ⟨hat, -, hraised⟩ := ((isTrace_trace e).mem_iff place n event).1 hstep
  obtain ⟨name, hname, ⟨hunknown, -⟩ | ⟨run, -, rfl, -⟩ | ⟨run, -, rfl, -⟩⟩ :=
    exists_callee_of_raised hraised
  · have hknown : (functions.find? name).isSome = true := h n (mem_nodes_of_at? hat) name hname
    rw [hunknown] at hknown
    cases hknown
  · exact ⟨name, _, rfl⟩
  · exact ⟨name, _, rfl⟩

/-- Whether all names that are called for an activation are known. -/
def Activation.CallsOnly (names : Text → Bool) : Activation → Prop
  | .always => True
  | .guard e => e.CallsOnly names
  | .gate name => names name = true

theorem Activation.CallsOnly.mono {names more : Text → Bool} {activation : Activation}
    (h : activation.CallsOnly names) (hmore : ∀ name, names name = true → more name = true) :
    activation.CallsOnly more := by
  cases activation with
  | always => trivial
  | guard e => exact Expr.CallsOnly.mono h hmore
  | gate name => exact hmore name h

/-- An activation that can be written calls only known names. -/
theorem Activation.Denotes.callsOnly {text : Text} {activation : Activation}
    (h : Denotes functions text activation) : activation.CallsOnly functions.contains := by
  cases h with
  | always => trivial
  | gate hname => exact hname
  | guard htext => exact Expr.callsOnly_of_ofText htext

/-- Whether all names that are called for an assertion are known. -/
def Assertion.CallsOnly (names : Text → Bool) (assertion : Assertion) : Prop :=
  assertion.activation.CallsOnly names ∧ assertion.condition.CallsOnly names

theorem Assertion.CallsOnly.mono {names more : Text → Bool} {assertion : Assertion}
    (h : assertion.CallsOnly names) (hmore : ∀ name, names name = true → more name = true) :
    assertion.CallsOnly more :=
  ⟨h.1.mono hmore, h.2.mono hmore⟩

/-- An assertion whose names are known to some functions only makes calls with them. -/
theorem Assertion.CallsOnly.onlyCalls {assertion : Assertion}
    (h : assertion.CallsOnly functions.contains) (world : World) :
    ({ assertion with functions }.check world).OnlyCalls := by
  obtain ⟨source, activation, condition, own⟩ := assertion
  obtain ⟨hactivation, hcondition⟩ := h
  have hactive : (isActive ⟨source, activation, condition, functions⟩ world).OnlyCalls := by
    cases activation with
    | always => exact .pure true
    | guard e => exact (Expr.CallsOnly.onlyCalls hactivation world).map _
    | gate name =>
      have hstatement : (Expr.statement ⟨0, 0⟩ name).CallsOnly functions.contains := by
        intro n hn other hother
        obtain rfl := List.mem_singleton.1 hn
        cases hother
        exact hactivation
      have hcalls := hstatement.onlyCalls world
      rw [Expr.evaluate] at hcalls
      exact hcalls.map _
  refine hactive.andThen ?_
  split
  · exact (Expr.CallsOnly.onlyCalls hcondition world).map _
  · exact .pure _

/-! ### What is compiled -/

theorem Formula.callsOnly_of_compile {source : Text} {formula : Formula}
    (h : (Formula.compile functions source).result = .ok formula) :
    formula.expr.CallsOnly functions.contains := by
  obtain ⟨e, he, rfl⟩ := Formula.result_compile_eq_ok_iff.1 h
  exact Expr.callsOnly_of_ofText he

theorem Assertion.callsOnly_of_compile {source : Text} {assertion : Assertion}
    (h : (Assertion.compile functions source).result = .ok assertion) :
    assertion.CallsOnly functions.contains := by
  obtain ⟨before, after, activation, condition, hcut, rfl⟩ := exists_isCut_of_compile h
  exact ⟨hcut.denotes.callsOnly, Expr.callsOnly_of_ofText hcut.condition_eq⟩

/-- Whether a name can be compiled in each way in which a name can be written. -/
structure Repertoire.Reaches (functions : Repertoire) (name : Text) : Prop where
  /-- By itself it is a statement. -/
  statement : ∃ formula, (Formula.compile functions name).result = .ok formula ∧
    formula.expr = .statement ⟨0, Text.size name⟩ name
  /-- With brackets behind it, it is a call without arguments. -/
  call : ∃ formula span,
    (Formula.compile functions
      (name ++ [Symbol.openBracket, Symbol.closeBracket])).result = .ok formula ∧
    formula.expr = .call span name []
  /-- In front of a condition it is the activation of an assertion. -/
  gate : ∀ condition formula, (Formula.compile functions condition).result = .ok formula →
    ∃ assertion,
      (Assertion.compile functions (name ++ Symbol.colon :: condition)).result = .ok assertion ∧
      assertion.activation = .gate name ∧ assertion.condition = formula.expr

theorem Repertoire.reaches_of_contains {name : Text} (hname : functions.contains name = true) :
    functions.Reaches name := by
  have hidentifier := isIdentifier_of_contains hname
  constructor
  · have hread := ofText_statement hidentifier hname
    exact ⟨_, Formula.result_compile_eq_ok_iff.2 ⟨_, hread, rfl⟩, rfl⟩
  · obtain ⟨span, hread⟩ := ofText_call_nil hidentifier hname
    exact ⟨_, span, Formula.result_compile_eq_ok_iff.2 ⟨_, hread, rfl⟩, rfl⟩
  · intro condition formula hformula
    obtain ⟨e, he, rfl⟩ := Formula.result_compile_eq_ok_iff.1 hformula
    exact ⟨_, (Assertion.isCut_gate hname he).result_compile, rfl, rfl⟩

/-- **Known names.** Formulas and assertions that are compiled call registered names only. With
these functions, or others under the same names and more, nothing but calls happens in any world:
no name is remarked as not registered. Every registered name can be compiled in turn, as a
statement, as a call and as an activation. -/
theorem compiled_calls_known_names (functions : Repertoire) :
    (∀ source formula, (Formula.compile functions source).result = .ok formula →
      formula.expr.CallsOnly functions.contains ∧
      ∀ wider : Repertoire,
        (∀ name, functions.contains name = true → wider.contains name = true) →
        ∀ world, (formula.expr.evaluate wider world).OnlyCalls ∧
          logEntries (formula.expr.evaluate wider world).events = []) ∧
    (∀ source assertion, (Assertion.compile functions source).result = .ok assertion →
      assertion.CallsOnly functions.contains ∧
      ∀ wider : Repertoire,
        (∀ name, functions.contains name = true → wider.contains name = true) →
        ∀ world, ({ assertion with functions := wider }.check world).OnlyCalls ∧
          logEntries ({ assertion with functions := wider }.check world).events = []) ∧
    ∀ name, functions.contains name = true → functions.Reaches name := by
  refine ⟨?_, ?_, fun name => Repertoire.reaches_of_contains⟩
  · intro source formula hformula
    have hknown := Formula.callsOnly_of_compile hformula
    refine ⟨hknown, fun wider hwider world => ?_⟩
    have hcalls := (hknown.mono hwider).onlyCalls world
    exact ⟨hcalls, hcalls.logEntries_eq_nil⟩
  · intro source assertion hassertion
    have hknown := Assertion.callsOnly_of_compile hassertion
    refine ⟨hknown, fun wider hwider world => ?_⟩
    have hcalls := (hknown.mono hwider).onlyCalls world
    exact ⟨hcalls, hcalls.logEntries_eq_nil⟩

/-- A function as the activation and the condition of an assertion, checked with one more
function. -/
theorem compiled_calls_known_names_gate :
    ∃ functions wider : Repertoire,
      Repertoire.empty.register ['f'] (.statement fun _ => .bool true) = .ok functions ∧
      functions.register ['g'] (.function fun _ _ => .missing) = .ok wider ∧
      ∃ formula assertion,
        (Formula.compile functions ['f', '(', ')']).result = .ok formula ∧
        (Assertion.compile functions ['f', ':', 'f', '(', ')']).result = .ok assertion ∧
        assertion.activation = .gate ['f'] ∧ assertion.condition = formula.expr ∧
        ∀ world, logEntries (formula.expr.evaluate wider world).events = [] ∧
          ({ assertion with functions := wider }.check world).OnlyCalls := by
  obtain ⟨functions, hfunctions⟩ : ∃ functions, Repertoire.empty.register ['f']
    (.statement fun _ => .bool true) = .ok functions := ⟨_, rfl⟩
  have hname : functions.contains ['f'] = true := by
    rw [Repertoire.contains_of_register hfunctions]
    rfl
  obtain ⟨wider, hwider⟩ : ∃ wider, functions.register ['g']
      (.function fun _ _ => .missing) = .ok wider := by
    cases hregister : functions.register ['g'] (.function fun _ _ => .missing) with
    | ok wider => exact ⟨wider, rfl⟩
    | error refusal =>
      have hrefusal := Repertoire.register_eq_error_iff.1 ⟨refusal, hregister⟩
      rcases hrefusal with hidentifier | hkeyword | hg
      · cases hidentifier
      · cases hkeyword
      · rw [Repertoire.contains_of_register hfunctions] at hg
        cases hg
  have hmore : ∀ name, functions.contains name = true → wider.contains name = true :=
    fun name => (Repertoire.Within.of_register hwider).contains
  obtain ⟨hformulas, hassertions, hreaches⟩ := compiled_calls_known_names functions
  obtain ⟨-, ⟨formula, span, hformula, -⟩, hgate⟩ := hreaches ['f'] hname
  obtain ⟨assertion, hassertion, hactivation, hcondition⟩ := hgate _ formula hformula
  refine ⟨functions, wider, hfunctions, hwider, formula, assertion, hformula, hassertion,
    hactivation, hcondition, fun world => ⟨?_, ?_⟩⟩
  · exact ((hformulas _ formula hformula).2 wider hmore world).2
  · exact ((hassertions _ assertion hassertion).2 wider hmore world).1

end Assertions
