import Assertions.Assertion
import Assertions.Proofs.Printing
import Assertions.Proofs.Separators

/-!
# The grammar of assertions

An assertion is an activation, a separator and a condition, and nothing else is one. `Denotes` lists
the texts of activations: the keyword, a registered name, and a guard in brackets behind its
keyword. Whatever the guard is, it has no separator outside its literals and its brackets balance,
so the separator behind it is the first one and its own bracket closes at its end. An assertion
therefore has only one cut (`result_compile_eq_ok_iff_isCut`).
-/

namespace Assertions

/-! ### Activations -/

/-- The activation that a text denotes. -/
inductive Activation.Denotes (functions : Repertoire) : Text → Activation → Prop
  | always : Denotes functions Symbol.always .always
  | gate {name : Text} (hname : functions.contains name = true) :
    Denotes functions name (.gate name)
  | guard {text : Text} {e : Expr} (htext : Expr.ofText functions.contains text = .ok e) :
    Denotes functions
      (Symbol.when ++ Symbol.openBracket :: text ++ [Symbol.closeBracket]) (.guard e)

/-- The brackets of a text that is read as an expression balance. -/
theorem balanced_of_ofText {names : Text → Bool} {source : Text} {e : Expr}
    (h : Expr.ofText names source = .ok e) : Balanced source := by
  obtain ⟨p, hp, htext, -⟩ := exists_phrase_of_ofText h
  have hbalanced := hp.spelled.selfContained_text.balanced
  rw [htext] at hbalanced
  exact balanced_of_condense hbalanced

/-- Compiling gives an expression exactly if reading does. -/
theorem Expr.result_compile_eq_ok_iff {functions : Repertoire} {offset : Nat} {source : Text}
    {e : Expr} : (Expr.compile functions offset source).result = .ok e ↔
      Expr.ofText functions.contains source = .ok e := by
  rw [Expr.result_compile]
  cases Expr.ofText functions.contains source with
  | error fault => exact ⟨nofun, nofun⟩
  | ok value =>
    show (Except.ok value : Except Refusal Expr) = .ok e ↔ _
    rw [Except.ok.injEq, Except.ok.injEq]

/-- What is compiled to a formula is what can be read. -/
theorem Formula.result_compile_eq_ok_iff {functions : Repertoire} {source : Text}
    {formula : Formula} :
    (Formula.compile functions source).result = .ok formula ↔
      ∃ e, Expr.ofText functions.contains source = .ok e ∧ formula = ⟨source, e, functions⟩ := by
  rw [Formula.compile, Staged.result_andThen]
  cases hread : (Expr.compile functions 0 source).result with
  | error refusal =>
    constructor
    · intro h
      cases h
    · rintro ⟨e, he, -⟩
      rw [Expr.result_compile_eq_ok_iff.2 he] at hread
      cases hread
  | ok e =>
    have he := Expr.result_compile_eq_ok_iff.1 hread
    rw [he]
    constructor
    · intro h
      cases h
      exact ⟨e, rfl, rfl⟩
    · rintro ⟨_, ⟨⟩, rfl⟩
      rfl

namespace Activation

variable {functions : Repertoire} {text : Text} {activation : Activation}

/-- A name has no bracket, so it does not start like a guard. -/
theorem dropWord?_when_eq_none {name : Text} (h : isIdentifier name = true) :
    Text.dropWord? (Symbol.when ++ [Symbol.openBracket]) name = none := by
  rw [Option.eq_none_iff_forall_ne_some]
  intro rest hrest
  have hmem : Symbol.openBracket ∈ name := by
    rw [Text.eq_of_dropWord? hrest]
    simp
  exact absurd (isWordChar_of_mem_name h hmem) (by decide)

theorem compile_gate {name : Text} (h : functions.contains name = true) :
    compile functions name = .ok (.gate name) := by
  have hfunction := Repertoire.isFunctionName_of_contains h
  have hidentifier : isIdentifier name = true ∧ isKeyword name = false := by
    simpa [isFunctionName] using hfunction
  have halways : (name == Symbol.always) = false := (Bool.or_eq_false_iff.1 hidentifier.2).1
  unfold compile
  rw [halways, dropWord?_when_eq_none hidentifier.1, hfunction, h]
  rfl

theorem compile_guard {inside : Text} (h : Balanced inside) :
    compile functions (Symbol.when ++ Symbol.openBracket :: inside ++ [Symbol.closeBracket]) =
      (Expr.compile functions (Text.size Symbol.when + 1) inside).andThen fun e =>
        .ok (.guard e) := by
  have hdrop := Text.dropWord?_append (Symbol.when ++ [Symbol.openBracket])
    (inside ++ [Symbol.closeBracket])
  have htext : Symbol.when ++ Symbol.openBracket :: inside ++ [Symbol.closeBracket] =
      Symbol.when ++ [Symbol.openBracket] ++ (inside ++ [Symbol.closeBracket]) := by simp
  have halways : (Symbol.when ++ [Symbol.openBracket] ++ (inside ++ [Symbol.closeBracket]) ==
      Symbol.always) = false := rfl
  rw [htext]
  unfold compile
  rw [halways, hdrop]
  simp only [enclosed?_of_balanced h []]
  rfl

/-- What is compiled to an activation denotes it. -/
theorem denotes_of_compile (h : (compile functions text).result = .ok activation) :
    Denotes functions text activation := by
  unfold compile at h
  split at h
  · rename_i halways
    cases h
    rw [beq_iff_eq.1 halways]
    exact .always
  · split at h
    · rename_i rest hrest
      split at h
      · cases h
      · rename_i inside hinside
        rw [Staged.result_andThen] at h
        cases hguard : (Expr.compile functions (Text.size Symbol.when + 1) inside).result with
        | error refusal =>
          rw [hguard] at h
          cases h
        | ok e =>
          rw [hguard] at h
          cases h
          have htext := Text.eq_of_dropWord? hrest
          rw [eq_of_enclosed? hinside] at htext
          have hdenotes := Denotes.guard (Expr.result_compile_eq_ok_iff.1 hguard)
          rwa [htext, List.append_assoc, List.singleton_append, ← List.cons_append,
            ← List.append_assoc]
      · cases h
    · split at h
      · split at h
        · rename_i hname
          cases h
          exact .gate hname
        · cases h
      · cases h

/-- **Activations.** The texts that are compiled to an activation are those that denote it. -/
theorem result_compile_eq_ok_iff :
    (compile functions text).result = .ok activation ↔ Denotes functions text activation := by
  constructor
  · exact denotes_of_compile
  · intro h
    cases h with
    | always => rfl
    | gate hname => rw [compile_gate hname]; rfl
    | guard htext =>
      rw [compile_guard (balanced_of_ofText htext), Staged.result_andThen,
        Expr.result_compile_eq_ok_iff.2 htext]
      rfl

/-- No activation has a separator outside literals. -/
theorem Denotes.seals (h : Denotes functions text activation) :
    Literal.Seals Symbol.colon text := by
  cases h with
  | always => exact .of_not_mem (by decide) (by decide)
  | gate hname =>
    exact seals_colon_of_isIdentifier (Repertoire.isIdentifier_of_contains hname)
  | guard htext =>
    have hwhen : Literal.Seals Symbol.colon Symbol.when := .of_not_mem (by decide) (by decide)
    rw [List.append_assoc]
    exact hwhen.append (seals_of_ofText htext).bracketed

/-- A text denotes one activation at most. -/
theorem Denotes.unique {other : Activation} (h : Denotes functions text activation)
    (hother : Denotes functions text other) : activation = other := by
  have heq := result_compile_eq_ok_iff.2 h
  rw [result_compile_eq_ok_iff.2 hother] at heq
  exact (Except.ok.inj heq).symm

end Activation

/-! ### Assertions -/

/-- Whether an assertion can be cut into texts that denote a given activation and hold a given
condition. -/
structure Assertion.IsCut (functions : Repertoire) (source before after : Text)
    (activation : Activation) (condition : Expr) : Prop where
  condense_eq : condense source = before ++ Symbol.colon :: after
  denotes : Activation.Denotes functions before activation
  condition_eq : Expr.ofText functions.contains after = .ok condition

namespace Assertion

variable {functions : Repertoire} {source before after : Text} {activation : Activation}
  {condition : Expr}

/-- The cut is where the search for the separator finds it. -/
theorem IsCut.splitOutside?_eq (h : IsCut functions source before after activation condition) :
    Literal.splitOutside? Symbol.colon (condense source) = some (before, after) := by
  rw [h.condense_eq]
  exact Literal.splitOutside?_of_seals (by decide) h.denotes.seals after

theorem IsCut.result_compile (h : IsCut functions source before after activation condition) :
    (compile functions source).result = .ok ⟨source, activation, condition, functions⟩ := by
  rw [result_compile_of_some functions h.splitOutside?_eq,
    Activation.result_compile_eq_ok_iff.2 h.denotes]
  show ((Expr.compile functions (Text.size before + 1) after).result.map _ : Except _ _) = _
  rw [Expr.result_compile_eq_ok_iff.2 h.condition_eq]
  rfl

/-- An assertion that is compiled can be cut. -/
theorem exists_isCut_of_compile {assertion : Assertion}
    (h : (compile functions source).result = .ok assertion) :
    ∃ before after activation condition,
      IsCut functions source before after activation condition ∧
        assertion = ⟨source, activation, condition, functions⟩ := by
  cases hsplit : Literal.splitOutside? Symbol.colon (condense source) with
  | none =>
    rw [result_compile_of_none functions hsplit] at h
    cases h
  | some cut =>
    obtain ⟨before, after⟩ := cut
    rw [result_compile_of_some functions hsplit] at h
    cases hactivation : (Activation.compile functions before).result with
    | error refusal =>
      rw [hactivation] at h
      cases h
    | ok activation =>
      rw [hactivation] at h
      cases hcondition : (Expr.compile functions (Text.size before + 1) after).result with
      | error refusal =>
        simp only [Except.bind, hcondition, Except.map] at h
        cases h
      | ok condition =>
        simp only [Except.bind, hcondition, Except.map] at h
        cases h
        exact ⟨before, after, activation, condition, ⟨Literal.eq_of_splitOutside?_go hsplit,
          Activation.denotes_of_compile hactivation, Expr.result_compile_eq_ok_iff.1 hcondition⟩,
          rfl⟩

/-- There is one cut of an assertion at most. -/
theorem IsCut.unique {before' after' : Text} {activation' : Activation} {condition' : Expr}
    (h : IsCut functions source before after activation condition)
    (h' : IsCut functions source before' after' activation' condition') :
    before = before' ∧ after = after' ∧ activation = activation' ∧ condition = condition' := by
  have hsplit := h.splitOutside?_eq
  rw [h'.splitOutside?_eq] at hsplit
  cases hsplit
  have hcondition := h.condition_eq
  rw [h'.condition_eq] at hcondition
  exact ⟨rfl, rfl, h.denotes.unique h'.denotes, (Except.ok.inj hcondition).symm⟩

/-- Condensing a guarded assertion condenses its guard and its condition. -/
theorem condense_guarded {guard condition : Text} (h : quotedThrough false guard = false) :
    condense (Symbol.when ++ Symbol.openBracket :: guard ++
        Symbol.closeBracket :: Symbol.colon :: condition) =
      Symbol.when ++ Symbol.openBracket :: condense guard ++ [Symbol.closeBracket] ++
        Symbol.colon :: condense condition := by
  have hopen : Tight (Symbol.when ++ [Symbol.openBracket]) := fun _ => rfl
  have hclose : Tight [Symbol.closeBracket, Symbol.colon] := fun _ => rfl
  have hfront := hopen (guard ++ ([Symbol.closeBracket, Symbol.colon] ++ condition))
  rw [condense_go_append false guard, h, hclose] at hfront
  simpa [condense] using hfront

/-- A guard and a condition that can be read make up an assertion, with any blanks in them. -/
theorem isCut_guarded {guard condition : Text} {g c : Expr}
    (hguard : Expr.ofText functions.contains guard = .ok g)
    (hcondition : Expr.ofText functions.contains condition = .ok c) :
    IsCut functions (Symbol.when ++ Symbol.openBracket :: guard ++
        Symbol.closeBracket :: Symbol.colon :: condition)
      (Symbol.when ++ Symbol.openBracket :: condense guard ++ [Symbol.closeBracket])
      (condense condition) (.guard g) c where
  condense_eq := condense_guarded (seals_of_ofText hguard).closed
  denotes := .guard (by rw [Expr.ofText, condense_condense]; exact hguard)
  condition_eq := by
    rw [Expr.ofText, condense_condense]
    exact hcondition

end Assertion

/-- **The grammar of assertions.** A text is compiled to an assertion if and only if it can be cut
into the text of an activation, a separator and a condition. There is only one way to cut it, and it
gives the activation and the condition of the assertion. A guard and a condition that can be read by
themselves always make up an assertion, whatever blanks, brackets and colons are in them. -/
theorem result_compile_eq_ok_iff_isCut (functions : Repertoire) (source : Text) :
    (∀ assertion, (Assertion.compile functions source).result = .ok assertion ↔
      assertion.source = source ∧ assertion.functions = functions ∧ ∃ before after,
        Assertion.IsCut functions source before after assertion.activation assertion.condition) ∧
    (∀ before after activation condition before' after' activation' condition',
      Assertion.IsCut functions source before after activation condition →
      Assertion.IsCut functions source before' after' activation' condition' →
      before = before' ∧ after = after' ∧ activation = activation' ∧ condition = condition') ∧
    ∀ guard condition g c, Expr.ofText functions.contains guard = .ok g →
      Expr.ofText functions.contains condition = .ok c →
      ∃ assertion, (Assertion.compile functions (Symbol.when ++ Symbol.openBracket :: guard ++
          Symbol.closeBracket :: Symbol.colon :: condition)).result = .ok assertion ∧
        assertion.activation = .guard g ∧ assertion.condition = c := by
  refine ⟨?_, ?_, ?_⟩
  · intro assertion
    constructor
    · intro h
      obtain ⟨before, after, activation, condition, hcut, rfl⟩ :=
        Assertion.exists_isCut_of_compile h
      exact ⟨rfl, rfl, before, after, hcut⟩
    · rintro ⟨rfl, rfl, before, after, hcut⟩
      exact hcut.result_compile
  · intro before after activation condition before' after' activation' condition' h h'
    exact h.unique h'
  · intro guard condition g c hguard hcondition
    exact ⟨_, (Assertion.isCut_guarded hguard hcondition).result_compile, rfl, rfl⟩

/-- A separator and a bracket in the literal of a guard, between blanks. -/
theorem result_compile_quoted_separator :
    ∃ assertion, (Assertion.compile .empty
        ['W', 'H', 'E', 'N', '(', ' ', '\x27', ')', ':', '\x27', ')', ':', '\x27', '(', '\x27',
          ' ']).result = .ok assertion ∧
      assertion.activation = .guard (.string ⟨0, 4⟩ [')', ':']) ∧
      assertion.condition = .string ⟨0, 3⟩ ['('] := by
  have hreadable : ∀ content : Text, Symbol.quote ∉ content → Symbol.forbidden ∉ content →
      (Phrase.string content).IsReadable Repertoire.empty.contains :=
    fun content hquote hforbidden =>
      (Phrase.IsSpelled.string hquote hforbidden).isReadable_of_leaf rfl
  have hguard : Expr.ofText Repertoire.empty.contains [' ', '\x27', ')', ':', '\x27'] =
      .ok (.string ⟨0, 4⟩ [')', ':']) :=
    (hreadable [')', ':'] (by decide) (by decide)).ofText_of_spaced (.blank ' ' rfl (.refl _ _))
  have hliteral : Spaced false ['\x27', '(', '\x27'] ['\x27', '(', '\x27', ' '] :=
    .keep _ (.keep _ (.keep _ (.blank ' ' rfl (.nil false))))
  have hcondition : Expr.ofText Repertoire.empty.contains ['\x27', '(', '\x27', ' '] =
      .ok (.string ⟨0, 3⟩ ['(']) :=
    (hreadable ['('] (by decide) (by decide)).ofText_of_spaced hliteral
  exact (result_compile_eq_ok_iff_isCut .empty []).2.2 _ _ _ _ hguard hcondition

end Assertions
