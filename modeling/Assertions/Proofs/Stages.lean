import Assertions.Session
import Assertions.Proofs.AssertionGrammar
import Assertions.Proofs.LooseBlanks

/-!
# Stages of compiling an assertion

An observer of compiling is told what has been done so far: that the assertion was cut, that a text
was cut into tokens, and at last that the assertion was compiled. Each stage is told when its step
is over, and after a step that fails there is none. So from the stages alone one sees how far
compiling came, also where it failed.

`Protocol` says which stages follow the cut: the tokens of the guard, the tokens of the condition
and the end, each exactly if its step was reached and went well.
-/

namespace Assertions

variable {functions : Repertoire} {source before after : Text}

/-! ### One step after another -/

namespace Staged

variable {α : Type u} {β : Type v}

/-- After a step that fails there are no stages. -/
theorem stages_andThen_of_error {first : Staged α} {refusal : Refusal}
    (h : first.result = .error refusal) (next : α → Staged β) :
    (first.andThen next).stages = first.stages := by
  rw [andThen, h]

/-- The stages of the first step come first, and then those of the second one. -/
theorem stages_andThen_of_ok {first : Staged α} {value : α} (h : first.result = .ok value)
    (next : α → Staged β) :
    (first.andThen next).stages = first.stages ++ (next value).stages := by
  rw [andThen, h]

/-- A recorder is told all stages. -/
theorem observedBy_recorder (staged : Staged α) : staged.observedBy .recorder = staged.stages :=
  List.flatMap_singleton' staged.stages

end Staged

/-! ### Expressions -/

/-- Whether a stage is that of a text that was cut into tokens. -/
def Stage.isTokens : Stage → Bool
  | .tokens _ _ => true
  | .split _ _ | .compiled _ => false

/-- The stage of an expression whose text can be cut into tokens. -/
def tokenStage? (names : Text → Bool) (text : Text) : Option Stage :=
  match lex names text with
  | .error _ => none
  | .ok (normalized, tokens) => some (.tokens normalized tokens)

/-- An expression goes through one stage at most. -/
theorem Expr.stages_compile (functions : Repertoire) (offset : Nat) (source : Text) :
    (Expr.compile functions offset source).stages =
      (tokenStage? functions.contains source).toList := by
  rw [Expr.compile, tokenStage?]
  cases lex functions.contains source with
  | error fault => rfl
  | ok found =>
    obtain ⟨normalized, tokens⟩ := found
    dsimp only
    cases Expr.ofTokens functions.contains tokens <;> rfl

theorem tokenStage?_eq_some_iff {names : Text → Bool} {text : Text} {stage : Stage}
    (htext : condense text = text) : tokenStage? names text = some stage ↔
      ∃ tokens, lex names text = .ok (text, tokens) ∧ stage = .tokens text tokens := by
  rw [tokenStage?, lex_eq_map, htext]
  cases tokenize names 0 text with
  | error fault =>
    constructor
    · intro h
      cases h
    · intro h
      obtain ⟨tokens, htokens, -⟩ := h
      cases htokens
  | ok tokens =>
    constructor
    · intro h
      cases h
      exact ⟨tokens, rfl, rfl⟩
    · intro h
      obtain ⟨_, htokens, rfl⟩ := h
      cases htokens
      rfl

/-- An expression that can be read is cut into tokens first. -/
theorem exists_tokenStage? {names : Text → Bool} {e : Expr}
    (h : Expr.ofText names source = .ok e) :
    ∃ normalized tokens, tokenStage? names source = some (.tokens normalized tokens) := by
  obtain ⟨tokens, htokens, -⟩ := fragment_eq_ok.1 h
  refine ⟨condense source, tokens, ?_⟩
  rw [tokenStage?, lex_eq_map, htokens]
  rfl

/-! ### Activations -/

namespace Activation

variable {text inside : Text}

/-- Whether an activation is a guard, whose first bracket is closed by its last character. -/
structure IsGuard (text inside : Text) : Prop where
  text_eq : text = Symbol.when ++ Symbol.openBracket :: inside ++ [Symbol.closeBracket]
  closing_eq : closingBracket? text (Text.size Symbol.when) =
    some (Text.size Symbol.when + 1 + Text.size inside)

theorem IsGuard.balanced (h : IsGuard text inside) : Balanced inside := by
  have hclosing := h.closing_eq
  rw [h.text_eq, List.append_assoc, List.cons_append, closingBracket?_append,
    Option.map_eq_some_iff] at hclosing
  obtain ⟨⟨found, rest⟩, hfound, hsize⟩ := hclosing
  have hsame : Text.size found = Text.size inside := by
    dsimp only at hsize
    omega
  have heq := eq_of_enclosed? hfound
  obtain ⟨rfl, -⟩ := Text.append_inj_of_size heq hsame.symm
  exact balanced_of_enclosed? hfound

theorem isGuard_of_balanced (h : Balanced inside) :
    IsGuard (Symbol.when ++ Symbol.openBracket :: inside ++ [Symbol.closeBracket]) inside where
  text_eq := rfl
  closing_eq := by
    rw [List.append_assoc, List.cons_append, closingBracket?_append, enclosed?_of_balanced h []]
    rfl

theorem IsGuard.unique {other : Text} (h : IsGuard text inside) (hother : IsGuard text other) :
    inside = other := by
  have heq := h.text_eq
  rw [hother.text_eq] at heq
  simpa using heq.symm

/-- The stage of a guard is that of the text in its brackets. -/
theorem IsGuard.stages_compile (h : IsGuard text inside) (functions : Repertoire) :
    (compile functions text).stages = (tokenStage? functions.contains inside).toList := by
  rw [h.text_eq, compile_guard h.balanced, ← Expr.stages_compile functions
    (Text.size Symbol.when + 1)]
  cases hresult : (Expr.compile functions (Text.size Symbol.when + 1) inside).result with
  | error refusal => exact Staged.stages_andThen_of_error hresult _
  | ok e => rw [Staged.stages_andThen_of_ok hresult]; exact List.append_nil _

/-- A guard fails if the text in its brackets does. -/
theorem IsGuard.result_compile_of_error {refusal : Refusal} (h : IsGuard text inside)
    (hinside : (Expr.compile functions (Text.size Symbol.when + 1) inside).result =
      .error refusal) : (compile functions text).result = .error refusal := by
  rw [h.text_eq, compile_guard h.balanced, Staged.result_andThen, hinside]
  rfl

/-- What is no guard goes through no stage. -/
theorem stages_compile_of_not_guard (h : ∀ inside, ¬IsGuard text inside)
    (functions : Repertoire) : (compile functions text).stages = [] := by
  unfold compile
  split
  · rfl
  · split
    · rename_i rest hrest
      split
      · rfl
      · rename_i inside hinside
        have htext := Text.eq_of_dropWord? hrest
        rw [eq_of_enclosed? hinside] at htext
        have hguard := isGuard_of_balanced (balanced_of_enclosed? hinside)
        refine absurd ?_ (h inside)
        rw [htext]
        simpa using hguard
      · rfl
    · split
      · split <;> rfl
      · rfl

/-- An activation goes through one stage at most, and through one exactly if it is a guard whose
text can be cut into tokens. -/
theorem exists_stage (functions : Repertoire)
    (htight : ∀ inside, IsGuard text inside → condense inside = inside) :
    ∃ guard : Option Stage, (compile functions text).stages = guard.toList ∧
      ∀ stage, guard = some stage ↔ ∃ inside tokens, IsGuard text inside ∧
        lex functions.contains inside = .ok (inside, tokens) ∧ stage = .tokens inside tokens := by
  by_cases hguard : ∃ inside, IsGuard text inside
  · obtain ⟨inside, hinside⟩ := hguard
    refine ⟨_, hinside.stages_compile functions, ?_⟩
    intro stage
    rw [tokenStage?_eq_some_iff (htight inside hinside)]
    constructor
    · intro h
      obtain ⟨tokens, htokens, rfl⟩ := h
      exact ⟨inside, tokens, hinside, htokens, rfl⟩
    · intro h
      obtain ⟨other, tokens, hother, htokens, rfl⟩ := h
      cases hinside.unique hother
      exact ⟨tokens, htokens, rfl⟩
  · have hnone : ∀ inside, ¬IsGuard text inside := fun inside h => hguard ⟨inside, h⟩
    refine ⟨none, stages_compile_of_not_guard hnone functions, ?_⟩
    intro stage
    constructor
    · intro h
      cases h
    · intro h
      obtain ⟨inside, -, hinside, -⟩ := h
      exact absurd hinside (hnone inside)

/-- The text in the brackets of a guard has no loose blanks in an assertion that has none. -/
theorem IsGuard.condense_eq {source after inside : Text} (h : IsGuard before inside)
    (hsplit : Literal.splitOutside? Symbol.colon (condense source) = some (before, after)) :
    condense inside = inside := by
  have hdrop : Text.dropWord? (Symbol.when ++ [Symbol.openBracket]) before =
      some (inside ++ [Symbol.closeBracket]) := by
    have happend := Text.dropWord?_append (Symbol.when ++ [Symbol.openBracket])
      (inside ++ [Symbol.closeBracket])
    rw [h.text_eq]
    simpa using happend
  exact (isTightPiece_guard hsplit hdrop (enclosed?_of_balanced h.balanced [])).condense_eq

/-- How many texts an activation has cut into tokens. -/
def tokenStages : Activation → Nat
  | .guard _ => 1
  | .always | .gate _ => 0

theorem countP_stages_compile {activation : Activation}
    (h : (compile functions text).result = .ok activation) :
    (compile functions text).stages.countP Stage.isTokens = activation.tokenStages := by
  cases denotes_of_compile h with
  | always => rfl
  | gate hname =>
    rw [compile_gate hname]
    rfl
  | guard htext =>
    have hguard := isGuard_of_balanced (balanced_of_ofText htext)
    obtain ⟨normalized, tokens, hstage⟩ := exists_tokenStage? htext
    rw [hguard.stages_compile, hstage]
    rfl

end Activation

/-! ### Assertions -/

/-- The stages that an assertion goes through behind its cut, as far as compiling comes: `guard` and
`condition` are those of the two texts, and `final` is the last one. -/
structure Assertion.Protocol (functions : Repertoire) (source before after : Text)
    (result : Except Refusal Assertion) (guard condition final : Option Stage) : Prop where
  cut_eq : before ++ Symbol.colon :: after = condense source
  guard_iff : ∀ stage, guard = some stage ↔ ∃ inside tokens, Activation.IsGuard before inside ∧
    lex functions.contains inside = .ok (inside, tokens) ∧ stage = .tokens inside tokens
  condition_iff : ∀ stage, condition = some stage ↔ ∃ activation tokens,
    (Activation.compile functions before).result = .ok activation ∧
    lex functions.contains after = .ok (after, tokens) ∧ stage = .tokens after tokens
  final_iff : ∀ stage, final = some stage ↔
    stage = .compiled source ∧ ∃ assertion, result = .ok assertion
  refused_guard : ∀ inside refusal, Activation.IsGuard before inside →
    (Expr.compile functions (Text.size Symbol.when + 1) inside).result = .error refusal →
    (Activation.compile functions before).result = .error refusal
  refused_activation : ∀ refusal,
    (Activation.compile functions before).result = .error refusal →
    result = .error refusal ∧ condition = none ∧ final = none
  refused_condition : ∀ activation refusal,
    (Activation.compile functions before).result = .ok activation →
    (Expr.compile functions (Text.size before + 1) after).result = .error refusal →
    result = .error refusal ∧ final = none

namespace Assertion

/-- An assertion without a separator goes through no stage. -/
theorem stages_compile_of_none
    (h : Literal.splitOutside? Symbol.colon (condense source) = none) :
    (compile functions source).stages = [] := by
  unfold compile
  simp only [h]
  rfl

/-- The stage of the condition, which is reached if the activation is compiled. -/
def conditionStage? (functions : Repertoire) (before after : Text) : Option Stage :=
  (Activation.compile functions before).result.toOption.bind fun _ =>
    tokenStage? functions.contains after

theorem conditionStage?_eq_some_iff {stage : Stage} :
    conditionStage? functions before after = some stage ↔
      (∃ activation, (Activation.compile functions before).result = .ok activation) ∧
        tokenStage? functions.contains after = some stage := by
  rw [conditionStage?]
  cases (Activation.compile functions before).result with
  | error refusal => simp [Except.toOption]
  | ok activation => simp [Except.toOption]

/-- The last stage, which is reached if the assertion is compiled. -/
def finalStage? (functions : Repertoire) (source : Text) : Option Stage :=
  (compile functions source).result.toOption.map fun _ => .compiled source

theorem finalStage?_eq_some_iff (stage : Stage) :
    finalStage? functions source = some stage ↔
      stage = .compiled source ∧
        ∃ assertion, (compile functions source).result = .ok assertion := by
  rw [finalStage?]
  cases (compile functions source).result with
  | error refusal => simp [Except.toOption]
  | ok assertion => simp [Except.toOption, eq_comm]

section

variable {activation : Activation} {refusal : Refusal}
  (h : Literal.splitOutside? Symbol.colon (condense source) = some (before, after))
include h

/-- The stages of an assertion whose activation fails. -/
theorem compile_of_activation_error
    (hactivation : (Activation.compile functions before).result = .error refusal) :
    compile functions source = ⟨.error refusal,
      .split before after :: (Activation.compile functions before).stages⟩ := by
  unfold compile
  simp only [h, Staged.andThen, hactivation, List.singleton_append]

/-- The stages of an assertion whose condition fails. -/
theorem compile_of_condition_error
    (hactivation : (Activation.compile functions before).result = .ok activation)
    (hcondition : (Expr.compile functions (Text.size before + 1) after).result =
      .error refusal) :
    compile functions source = ⟨.error refusal, .split before after ::
      ((Activation.compile functions before).stages ++
        (tokenStage? functions.contains after).toList)⟩ := by
  unfold compile
  simp only [h, Staged.andThen, hactivation, hcondition, Expr.stages_compile,
    List.singleton_append]

/-- The stages of an assertion that is compiled. -/
theorem compile_of_ok {condition : Expr}
    (hactivation : (Activation.compile functions before).result = .ok activation)
    (hcondition : (Expr.compile functions (Text.size before + 1) after).result =
      .ok condition) :
    compile functions source = ⟨.ok ⟨source, activation, condition, functions⟩,
      .split before after :: ((Activation.compile functions before).stages ++
        (tokenStage? functions.contains after).toList ++ [.compiled source])⟩ := by
  unfold compile
  simp only [h, Staged.andThen, hactivation, hcondition, Expr.stages_compile,
    List.singleton_append, List.append_assoc]

/-- Every assertion that can be cut goes through its stages as far as it comes. -/
theorem exists_protocol (functions : Repertoire) :
    ∃ guard condition final : Option Stage,
      Protocol functions source before after (compile functions source).result
        guard condition final ∧
      (compile functions source).stages =
        .split before after :: (guard.toList ++ condition.toList ++ final.toList) := by
  have htight : ∀ inside, Activation.IsGuard before inside → condense inside = inside :=
    fun inside hinside => hinside.condense_eq h
  obtain ⟨guard, hstages, hguard⟩ := Activation.exists_stage functions htight
  have hafter : condense after = after := (isTightPiece_of_splitOutside? h).2.condense_eq
  refine ⟨guard, conditionStage? functions before after, finalStage? functions source, ?_, ?_⟩
  · have hcut := (Literal.eq_of_splitOutside?_go h).symm
    refine ⟨hcut, hguard, ?_, finalStage?_eq_some_iff, ?_, ?_, ?_⟩
    · intro stage
      rw [conditionStage?_eq_some_iff, tokenStage?_eq_some_iff hafter]
      constructor
      · intro hstage
        obtain ⟨⟨activation, hactivation⟩, tokens, htokens, rfl⟩ := hstage
        exact ⟨activation, tokens, hactivation, htokens, rfl⟩
      · intro hstage
        obtain ⟨activation, tokens, hactivation, htokens, rfl⟩ := hstage
        exact ⟨⟨activation, hactivation⟩, tokens, htokens, rfl⟩
    · intro inside refusal hinside hresult
      exact hinside.result_compile_of_error hresult
    · intro refusal hactivation
      rw [finalStage?, conditionStage?, compile_of_activation_error h hactivation, hactivation]
      exact ⟨rfl, rfl, rfl⟩
    · intro activation refusal hactivation hcondition
      rw [finalStage?, compile_of_condition_error h hactivation hcondition]
      exact ⟨rfl, rfl⟩
  · rw [conditionStage?, finalStage?]
    cases hactivation : (Activation.compile functions before).result with
    | error refusal =>
      rw [compile_of_activation_error h hactivation, hstages]
      simp [Except.toOption]
    | ok activation =>
      cases hcondition : (Expr.compile functions (Text.size before + 1) after).result with
      | error refusal =>
        rw [compile_of_condition_error h hactivation hcondition, hstages]
        simp [Except.toOption]
      | ok condition =>
        rw [compile_of_ok h hactivation hcondition, hstages]
        simp [Except.toOption]

end

/-- A stage that is not among the first ones is the last one. -/
theorem eq_some_of_append_eq {list front rest : List Stage} {final : Option Stage} {stage : Stage}
    (hlist : stage ∉ list) (h : list ++ final.toList = front ++ stage :: rest) :
    final = some stage ∧ rest = [] := by
  cases final with
  | none =>
    rw [Option.toList_none, List.append_nil] at h
    exact absurd (h ▸ List.mem_append_right front List.mem_cons_self) hlist
  | some last =>
    rcases List.eq_nil_or_concat rest with hrest | ⟨others, other, hrest⟩
    · rw [hrest] at h
      obtain ⟨-, hlast⟩ := List.append_inj' h rfl
      exact ⟨congrArg some (List.cons.inj hlast).1, hrest⟩
    · rw [hrest, List.concat_eq_append, ← List.cons_append, ← List.append_assoc] at h
      obtain ⟨hfront, -⟩ := List.append_inj' h rfl
      exact absurd (hfront ▸ List.mem_append_right front List.mem_cons_self) hlist

/-- An assertion is compiled in its last stage and in no other. -/
theorem eq_of_stages_eq {text : Text} {front rest : List Stage}
    (h : (compile functions source).stages = front ++ .compiled text :: rest) :
    text = source ∧ rest = [] ∧ ∃ assertion, (compile functions source).result = .ok assertion := by
  cases hsplit : Literal.splitOutside? Symbol.colon (condense source) with
  | none =>
    rw [stages_compile_of_none hsplit] at h
    simp at h
  | some cut =>
    obtain ⟨before, after⟩ := cut
    obtain ⟨guard, condition, final, hprotocol, hstages⟩ := exists_protocol hsplit functions
    rw [hstages, ← List.cons_append] at h
    have hfirst : .compiled text ∉
        Stage.split before after :: (guard.toList ++ condition.toList) := by
      intro hmem
      simp only [List.mem_cons, List.mem_append, Option.mem_toList, reduceCtorEq, false_or] at hmem
      rcases hmem with hmem | hmem
      · obtain ⟨inside, tokens, -, -, heq⟩ := (hprotocol.guard_iff _).1 hmem
        cases heq
      · obtain ⟨activation, tokens, -, -, heq⟩ := (hprotocol.condition_iff _).1 hmem
        cases heq
    obtain ⟨hfinal, hrest⟩ := eq_some_of_append_eq hfirst h
    obtain ⟨heq, hok⟩ := (hprotocol.final_iff _).1 hfinal
    cases heq
    exact ⟨rfl, hrest, hok⟩

/-- The stages of an assertion that is compiled. -/
theorem exists_stages_of_ok {assertion : Assertion}
    (h : (compile functions source).result = .ok assertion) :
    ∃ before after normalized tokens,
      (Activation.compile functions before).result = .ok assertion.activation ∧
      (compile functions source).stages = .split before after ::
        (Activation.compile functions before).stages ++
          [.tokens normalized tokens, .compiled source] := by
  obtain ⟨before, after, activation, condition, hcut, rfl⟩ := exists_isCut_of_compile h
  have hactivation := Activation.result_compile_eq_ok_iff.2 hcut.denotes
  have hcondition : (Expr.compile functions (Text.size before + 1) after).result = .ok condition :=
    Expr.result_compile_eq_ok_iff.2 hcut.condition_eq
  obtain ⟨normalized, tokens, hstage⟩ := exists_tokenStage? hcut.condition_eq
  refine ⟨before, after, normalized, tokens, hactivation, ?_⟩
  rw [compile_of_ok hcut.splitOutside?_eq hactivation hcondition, hstage]
  simp

end Assertion

/-- **Stages of compiling.** An observer that records everything is told nothing of a text without
a separator. Of any other it is told the cut, and then the stages of the guard, of the condition and
of the end, as far as compiling comes. The end is told once at most and nothing behind it, and it is
told exactly if the assertion is compiled. Such an assertion had its condition cut into tokens, and
its guard if it has one. -/
theorem stages_follow_protocol {functions : Repertoire} {source : Text}
    {result : Except Refusal Assertion} {stages : List Stage}
    (h : (Session.mk functions Observer.recorder).compileAssertion source = (result, stages)) :
    (Literal.splitOutside? Symbol.colon (condense source) = none →
      stages = [] ∧ result = .error (.fault ⟨.noSeparator,
        ⟨Text.size (condense source), Text.size (condense source)⟩⟩)) ∧
    (∀ before after,
      Literal.splitOutside? Symbol.colon (condense source) = some (before, after) →
      ∃ guard condition final : Option Stage,
        Assertion.Protocol functions source before after result guard condition final ∧
        stages = .split before after :: (guard.toList ++ condition.toList ++ final.toList)) ∧
    (∀ front text rest, stages = front ++ .compiled text :: rest → text = source ∧ rest = []) ∧
    ((∃ assertion, result = .ok assertion) ↔
      ∃ text, stages.getLast? = some (.compiled text)) ∧
    ∀ assertion, result = .ok assertion →
      stages.countP Stage.isTokens =
        match assertion.activation with
        | .guard _ => 2
        | .always | .gate _ => 1 := by
  obtain ⟨hresult, hstages⟩ := Prod.mk.inj h
  replace hstages := (Staged.observedBy_recorder _).symm.trans hstages
  subst hresult hstages
  refine ⟨?_, ?_, ?_, ?_, ?_⟩
  · intro hsplit
    exact ⟨Assertion.stages_compile_of_none hsplit,
      Assertion.result_compile_of_none functions hsplit⟩
  · intro before after hsplit
    exact Assertion.exists_protocol hsplit functions
  · intro front text rest heq
    obtain ⟨htext, hrest, -⟩ := Assertion.eq_of_stages_eq heq
    exact ⟨htext, hrest⟩
  · constructor
    · intro hok
      obtain ⟨assertion, hassertion⟩ := hok
      obtain ⟨before, after, normalized, tokens, -, hstages⟩ :=
        Assertion.exists_stages_of_ok hassertion
      refine ⟨source, ?_⟩
      rw [hstages, List.getLast?_append]
      rfl
    · intro hlast
      obtain ⟨text, htext⟩ := hlast
      obtain ⟨front, heq⟩ := List.getLast?_eq_some_iff.1 htext
      exact (Assertion.eq_of_stages_eq heq).2.2
  · intro assertion hassertion
    obtain ⟨before, after, normalized, tokens, hactivation, hstages⟩ :=
      Assertion.exists_stages_of_ok hassertion
    rw [hstages, List.countP_append, List.countP_cons_of_neg Bool.false_ne_true,
      Activation.countP_stages_compile hactivation]
    cases assertion.activation <;> rfl

/-- A guard that is cut into tokens and cannot be read. -/
theorem stages_follow_protocol_refused_guard :
    (Session.mk .empty Observer.recorder).compileAssertion
      ['W', 'H', 'E', 'N', '(', '(', ')', ' ', ')', ':', '1'] =
      (.error (.fault ⟨.strayClose, ⟨6, 7⟩⟩),
        [.split ['W', 'H', 'E', 'N', '(', '(', ')', ')'] ['1'],
          .tokens ['(', ')'] [⟨.openBracket, ⟨0, 1⟩⟩, ⟨.closeBracket, ⟨1, 2⟩⟩]]) ∧
    ∃ guard condition final : Option Stage,
      Assertion.Protocol .empty ['W', 'H', 'E', 'N', '(', '(', ')', ' ', ')', ':', '1']
        ['W', 'H', 'E', 'N', '(', '(', ')', ')'] ['1'] (.error (.fault ⟨.strayClose, ⟨6, 7⟩⟩))
        guard condition final ∧
      [.split ['W', 'H', 'E', 'N', '(', '(', ')', ')'] ['1'],
          .tokens ['(', ')'] [⟨.openBracket, ⟨0, 1⟩⟩, ⟨.closeBracket, ⟨1, 2⟩⟩]] =
        .split ['W', 'H', 'E', 'N', '(', '(', ')', ')'] ['1'] ::
          (guard.toList ++ condition.toList ++ final.toList) := by
  have hreport : (Session.mk .empty Observer.recorder).compileAssertion
      ['W', 'H', 'E', 'N', '(', '(', ')', ' ', ')', ':', '1'] =
        (.error (.fault ⟨.strayClose, ⟨6, 7⟩⟩),
          [.split ['W', 'H', 'E', 'N', '(', '(', ')', ')'] ['1'],
            .tokens ['(', ')'] [⟨.openBracket, ⟨0, 1⟩⟩, ⟨.closeBracket, ⟨1, 2⟩⟩]]) := rfl
  exact ⟨hreport, (stages_follow_protocol hreport).2.1 _ _ rfl⟩

end Assertions
