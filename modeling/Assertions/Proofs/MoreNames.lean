import Assertions.Assertion
import Assertions.Proofs.Levels

/-!
# Reading with more names

A name only ever decides whether reading goes on or stops with the fault that the name is unknown.
So a text that is read with more names gives the same result, tree or fault, unless it failed at a
name that is known now. `Persists` says this of two results and `Outcome.Persists` of two outcomes
of a reader. The lemmas go up from tokens over operands and levels to texts and assertions, and at
every step the first thing that fails is the same with both sets of names.
-/

namespace Assertions

/-! ### Results that stay -/

/-- Whether a later result is the same, unless the first one is an excused failure. -/
def Persists {ε : Type u} {α : Type v} (excused : ε → Prop) (result later : Except ε α) : Prop :=
  later = result ∨ ∃ e, result = .error e ∧ excused e

namespace Persists

variable {ε : Type u} {α : Type v} {excused : ε → Prop} {result later : Except ε α}

theorem refl (result : Except ε α) : Persists excused result result := .inl rfl

theorem of_excused {e : ε} (h : excused e) (later : Except ε α) :
    Persists excused (.error e) later := .inr ⟨e, rfl, h⟩

/-- What is made of a result stays if what is made of its value does. -/
theorem bind {β : Type w} {next next' : α → Except ε β} (h : Persists excused result later)
    (hnext : ∀ a, Persists excused (next a) (next' a)) :
    Persists excused (result.bind next) (later.bind next') := by
  rcases h with rfl | ⟨e, rfl, he⟩
  · cases later with
    | error e => exact refl _
    | ok a => exact hnext a
  · exact of_excused he _

theorem map {β : Type w} (f : α → β) (h : Persists excused result later) :
    Persists excused (result.map f) (later.map f) := by
  rcases h with rfl | ⟨e, rfl, he⟩
  · exact refl _
  · exact of_excused he _

theorem mapError {ε' : Type w} {excused' : ε' → Prop} {f : ε → ε'}
    (h : Persists excused result later) (hf : ∀ e, excused e → excused' (f e)) :
    Persists excused' (result.mapError f) (later.mapError f) := by
  rcases h with rfl | ⟨e, rfl, he⟩
  · exact refl _
  · exact of_excused (hf e he) _

end Persists

/-- Whether a later outcome is the same, unless the first one is an excused failure. -/
def Outcome.Persists {α : Type u} {bound : List PlacedToken} (excused : Fault → Prop)
    (outcome later : Outcome α bound) : Prop :=
  later = outcome ∨ ∃ fault, outcome.result = .error fault ∧ excused fault

/-- Whether a fault is about a name that is unknown, although it is one of `more`. -/
def Fault.IsOvercome (more : Text → Bool) (fault : Fault) : Prop :=
  ∃ name, fault.cause = .unknownFunction name ∧ more name = true

/-- Whether a refusal is about a name that is unknown, although it is one of `more`. -/
def Refusal.IsOvercome (more : Text → Bool) (refusal : Refusal) : Prop :=
  ∃ fault, refusal = .fault fault ∧ fault.IsOvercome more

/-! ### Tokens -/

section

variable {names more : Text → Bool} (hmore : ∀ name, names name = true → more name = true)
include hmore

theorem Token.readName_persists (offset : Nat) (text : Text) :
    Persists (·.IsOvercome more) (readName names offset text) (readName more offset text) := by
  cases hknown : names (text.takeWhile isWordChar) with
  | true => exact .inl (by simp only [readName, hknown, hmore _ hknown])
  | false =>
    cases hnew : more (text.takeWhile isWordChar) with
    | false => exact .inl (by simp only [readName, hknown, hnew])
    | true =>
      have hread : readName names offset text =
          .error ⟨.unknownFunction (text.takeWhile isWordChar),
            ⟨offset, offset + Text.size (text.takeWhile isWordChar)⟩⟩ := by
        simp only [readName, hknown]
        rfl
      exact .inr ⟨_, hread, _, rfl, hnew⟩

theorem Token.read_persists (offset : Nat) (text : Text) :
    Persists (·.IsOvercome more) (read names offset text) (read more offset text) := by
  cases text with
  | nil => exact .refl _
  | cons c rest =>
    simp only [read]
    split
    · exact .refl _
    · split
      · exact .refl _
      · split
        · exact .refl _
        · split
          · exact .refl _
          · split
            · exact readName_persists hmore offset (c :: rest)
            · exact .refl _

theorem tokenizeWithin_persists (room : Nat) :
    ∀ (offset : Nat) (text : Text), Persists (·.IsOvercome more)
      (tokenizeWithin names room offset text) (tokenizeWithin more room offset text) := by
  induction room with
  | zero =>
    intro offset text
    cases text <;> exact .refl _
  | succ room ih =>
    intro offset text
    cases text with
    | nil => exact .refl _
    | cons c rest =>
      rw [tokenizeWithin_cons, tokenizeWithin_cons]
      exact (Token.read_persists hmore offset (c :: rest)).bind fun lexeme => (ih _ _).map _

end

/-! ### Operators -/

section

variable {excused : Fault → Prop} {reader later : OperandReader}
  (h : ∀ tokens, (reader tokens).Persists excused (later tokens))
include h

theorem extend_persists (ops : List Operator) (left : Expr) (tokens : List PlacedToken) :
    (extend ops reader left tokens).Persists excused (extend ops later left tokens) := by
  fun_induction extend ops reader left tokens with
  | case1 left op span more hop fault rest hsuffix hfault =>
    rcases h more with heq | ⟨fault', hfault', hexcused⟩
    · refine .inl ?_
      rw [extend.eq_def]
      simp only [hop, if_true, heq, hfault]
    · rw [hfault] at hfault'
      cases hfault'
      exact .inr ⟨fault, rfl, hexcused⟩
  | case2 left op span more hop right rest hsuffix hright ih =>
    rcases h more with heq | ⟨fault, hfault, -⟩
    · rw [extend.eq_def ops later]
      simp only [hop, if_true, heq, hright]
      rcases ih with heq' | hexcused
      · exact .inl (by rw [heq'])
      · exact .inr hexcused
    · rw [hright] at hfault
      cases hfault
  | case3 left op span more hop =>
    refine .inl ?_
    rw [extend.eq_def]
    simp only [hop, if_false, Bool.false_eq_true]
  | case4 left tokens hother =>
    exact .inl (extend_of_stop fun op span more heq => (hother op span more heq).elim)

theorem level_persists (ops : List Operator) (tokens : List PlacedToken) :
    (level ops reader tokens).Persists excused (level ops later tokens) := by
  rcases h tokens with heq | ⟨fault, hfault, hexcused⟩
  · unfold level
    rw [heq]
    rcases reader tokens with ⟨_ | left, rest, hsuffix⟩
    · exact .inl rfl
    · rcases extend_persists h ops left rest with heq' | hexcused
      · exact .inl (by simp only [heq'])
      · exact .inr hexcused
  · refine .inr ⟨fault, ?_, hexcused⟩
    unfold level
    rcases htokens : reader tokens with ⟨_ | left, rest, hsuffix⟩
    · rw [htokens] at hfault
      exact hfault
    · rw [htokens] at hfault
      cases hfault

end

theorem expression_persists {excused : Fault → Prop} {reader later : OperandReader}
    (h : ∀ tokens, (reader tokens).Persists excused (later tokens)) (tokens : List PlacedToken) :
    (expression reader tokens).Persists excused (expression later tokens) :=
  level_persists (level_persists (level_persists (level_persists (level_persists
    (level_persists h _) _) _) _) _) _ tokens

/-! ### Operands -/

theorem closeGroup_persists {excused : Fault → Prop} {bound : List PlacedToken}
    {inner later : Outcome Expr bound} (opening : Span) (h : inner.Persists excused later) :
    (closeGroup opening inner).Persists excused (closeGroup opening later) := by
  rcases h with rfl | ⟨fault, hfault, hexcused⟩
  · exact .inl rfl
  · obtain ⟨result, rest, hsuffix⟩ := inner
    cases hfault
    exact .inr ⟨fault, rfl, hexcused⟩

theorem complete_persists {excused : Fault → Prop} {readerUpTo laterUpTo : Nat → OperandReader}
    (h : ∀ stop tokens, (readerUpTo stop tokens).Persists excused (laterUpTo stop tokens))
    (tokens : List PlacedToken) :
    Persists excused (complete readerUpTo tokens) (complete laterUpTo tokens) := by
  cases tokens with
  | nil => exact .refl _
  | cons first others =>
    rcases expression_persists (h (endOf (first :: others))) (first :: others) with
      heq | ⟨fault, hfault, hexcused⟩
    · refine .inl ?_
      simp only [complete, heq]
    · refine .inr ⟨fault, ?_, hexcused⟩
      rw [complete]
      split
      · rename_i fault' rest hsuffix hread
        rw [hread] at hfault
        exact hfault
      all_goals
        rename_i hread
        rw [hread] at hfault
        cases hfault

theorem arguments_persists {excused : Fault → Prop}
    {readText later : (offset : Nat) → Text → Except Fault Expr}
    (h : ∀ offset text, Persists excused (readText offset text) (later offset text))
    (name : Text) (offset : Nat) (pieces : List (Nat × Text)) :
    Persists excused (arguments readText name offset pieces)
      (arguments later name offset pieces) := by
  induction pieces with
  | nil => exact .refl _
  | cons piece others ih =>
    obtain ⟨start, text⟩ := piece
    by_cases htext : text = []
    · subst htext
      exact .refl _
    · rw [arguments_cons _ _ _ _ htext, arguments_cons _ _ _ _ htext]
      exact (h (offset + start) text).bind fun e => ih.map _

section

variable {names more : Text → Bool} (hmore : ∀ name, names name = true → more name = true)
include hmore

theorem fragment_persists {readerUpTo laterUpTo : Nat → OperandReader}
    (h : ∀ stop tokens, (readerUpTo stop tokens).Persists (·.IsOvercome more)
      (laterUpTo stop tokens)) (offset : Nat) (text : Text) :
    Persists (·.IsOvercome more) (fragment readerUpTo names offset text)
      (fragment laterUpTo more offset text) := by
  rw [fragment_eq_bind, fragment_eq_bind]
  exact (tokenizeWithin_persists hmore maxTokens offset text).bind (complete_persists h)

/-- Only a call looks at names. The induction is on the room, as the arguments of a call are texts
that are read with less of it. -/
theorem operand_persists (room : Nat) :
    ∀ (stop : Nat) (tokens : List PlacedToken),
      (operand names room stop tokens).Persists (·.IsOvercome more)
        (operand more room stop tokens) := by
  induction room with
  | zero =>
    intro stop tokens
    cases tokens with
    | nil => exact .inl rfl
    | cons first rest =>
      obtain ⟨token, span⟩ := first
      cases token <;> exact .inl rfl
  | succ room ih =>
    intro stop tokens
    cases tokens with
    | nil => exact .inl rfl
    | cons first rest =>
      obtain ⟨token, span⟩ := first
      cases token with
      | call name args argsAt =>
        have hargs := arguments_persists (fragment_persists hmore ih) name argsAt
          (splitArguments args)
        rcases hargs with heq | ⟨fault, hfault, hover⟩
        · refine .inl ?_
          simp only [operand, heq]
        · refine .inr ⟨fault, ?_, hover⟩
          simp only [operand, hfault]
      | openBracket =>
        have hgroup := closeGroup_persists span (expression_persists (ih stop) rest)
        rcases hgroup with heq | ⟨fault, hfault, hover⟩
        · refine .inl ?_
          simp only [operand, heq]
        · exact .inr ⟨fault, hfault, hover⟩
      | _ => exact .inl rfl

end

/-! ### Texts and assertions -/

theorem ofText_persists {names more : Text → Bool}
    (hmore : ∀ name, names name = true → more name = true) (source : Text) :
    Persists (·.IsOvercome more) (Expr.ofText names source) (Expr.ofText more source) :=
  fragment_persists hmore (operand_persists hmore (roomAt 0)) 0 (condense source)

/-- The activation and the condition of an assertion. -/
def Assertion.parts (assertion : Assertion) : Activation × Expr :=
  (assertion.activation, assertion.condition)

theorem Assertion.parts_compile_of_some {functions : Repertoire} {source before after : Text}
    (h : Literal.splitOutside? Symbol.colon (condense source) = some (before, after)) :
    (Assertion.compile functions source).result.map parts =
      (Activation.compile functions before).result.bind fun activation =>
        (Expr.compile functions (Text.size before + 1) after).result.map (activation, ·) := by
  rw [Assertion.result_compile_of_some functions h]
  cases (Activation.compile functions before).result with
  | error refusal => rfl
  | ok activation =>
    simp only [Except.bind]
    cases (Expr.compile functions (Text.size before + 1) after).result <;> rfl

section

variable {functions wider : Repertoire}
  (hwider : ∀ name, functions.contains name = true → wider.contains name = true)
include hwider

theorem Expr.compile_persists (offset : Nat) (source : Text) :
    Persists (·.IsOvercome wider.contains) (Expr.compile functions offset source).result
      (Expr.compile wider offset source).result := by
  rw [Expr.result_compile, Expr.result_compile]
  refine (ofText_persists hwider source).mapError ?_
  rintro fault ⟨name, hcause, hname⟩
  exact ⟨_, rfl, name, hcause, hname⟩

/-- A gate and a guard look at names, and the keywords do not. -/
theorem Activation.compile_persists (text : Text) :
    Persists (·.IsOvercome wider.contains) (Activation.compile functions text).result
      (Activation.compile wider text).result := by
  unfold Activation.compile
  split
  · exact .refl _
  · split
    · split
      · exact .refl _
      · rw [Staged.result_andThen, Staged.result_andThen]
        exact (Expr.compile_persists hwider _ _).bind fun e => .refl _
      · exact .refl _
    · split
      · cases hknown : functions.contains text with
        | true =>
          rw [hwider text hknown]
          exact .refl _
        | false =>
          cases hnew : wider.contains text with
          | false => exact .refl _
          | true => exact .of_excused ⟨_, rfl, text, rfl, hnew⟩ _
      · exact .refl _

theorem Assertion.compile_persists (source : Text) :
    Persists (·.IsOvercome wider.contains) ((Assertion.compile functions source).result.map parts)
      ((Assertion.compile wider source).result.map parts) := by
  cases hsplit : Literal.splitOutside? Symbol.colon (condense source) with
  | none =>
    rw [Assertion.result_compile_of_none functions hsplit,
      Assertion.result_compile_of_none wider hsplit]
    exact .refl _
  | some cut =>
    rw [Assertion.parts_compile_of_some hsplit, Assertion.parts_compile_of_some hsplit]
    exact (Activation.compile_persists hwider cut.1).bind fun activation =>
      (Expr.compile_persists hwider (Text.size cut.1 + 1) cut.2).map _

end

/-- **More names.** With more names a text is read as the same expression, cut into the same tokens
and compiled to the same activation and condition, or it fails in the same way at the same place,
unless it failed because a name was unknown that is known now. -/
theorem persists_of_more_names {names more : Text → Bool}
    (hmore : ∀ name, names name = true → more name = true) (source : Text) :
    Persists (·.IsOvercome more) (Expr.ofText names source) (Expr.ofText more source) ∧
      Persists (·.IsOvercome more) (lex names source) (lex more source) ∧
      ∀ functions wider : Repertoire, functions.contains = names → wider.contains = more →
        Persists (·.IsOvercome more) ((Assertion.compile functions source).result.map (·.parts))
          ((Assertion.compile wider source).result.map (·.parts)) := by
  refine ⟨ofText_persists hmore source, ?_, ?_⟩
  · rw [lex_eq_map, lex_eq_map]
    exact (tokenizeWithin_persists hmore maxTokens 0 (condense source)).map _
  · rintro functions wider rfl rfl
    exact Assertion.compile_persists hmore source

/-- An argument with an unknown name stays unknown when another name is registered. -/
theorem persists_unknown_argument :
    ∃ functions wider : Repertoire,
      Repertoire.empty.register ['f'] (.statement fun _ => .missing) = .ok functions ∧
      functions.register ['g'] (.statement fun _ => .null) = .ok wider ∧
      (Assertion.compile wider ['A', 'L', 'W', 'A', 'Y', 'S', ':', 'f', '(', 'h', ')']).result.map
          (·.parts) = .error (.fault ⟨.unknownFunction ['h'], ⟨9, 10⟩⟩) := by
  have hread : ∀ functions,
      Repertoire.empty.register ['f'] (.statement fun _ => .missing) = .ok functions →
      (Assertion.compile functions
        ['A', 'L', 'W', 'A', 'Y', 'S', ':', 'f', '(', 'h', ')']).result.map (·.parts) =
          .error (.fault ⟨.unknownFunction ['h'], ⟨9, 10⟩⟩) ∧ functions.contains ['h'] = false ∧
      ∃ wider, functions.register ['g'] (.statement fun _ => .null) = .ok wider := by
    rintro functions ⟨⟩
    exact ⟨rfl, rfl, _, rfl⟩
  obtain ⟨functions, hfunctions⟩ : ∃ functions,
      Repertoire.empty.register ['f'] (.statement fun _ => .missing) = .ok functions := ⟨_, rfl⟩
  obtain ⟨hresult, hunknown, wider, hwider⟩ := hread functions hfunctions
  have hmore : ∀ name, functions.contains name = true → wider.contains name = true := by
    intro name hname
    rw [Repertoire.contains_of_register hwider, hname, Bool.or_true]
  refine ⟨functions, wider, hfunctions, hwider, ?_⟩
  rcases (persists_of_more_names hmore
    ['A', 'L', 'W', 'A', 'Y', 'S', ':', 'f', '(', 'h', ')']).2.2 functions wider rfl rfl with
    heq | ⟨refusal, hrefusal, fault, rfl, name, hcause, hname⟩
  · exact heq.trans hresult
  · rw [hresult] at hrefusal
    cases hrefusal
    cases hcause
    rw [Repertoire.contains_of_register hwider, hunknown] at hname
    exact absurd hname (by decide)

end Assertions
