import Assertions.Proofs.Levels
import Assertions.Proofs.Offsets
import Mathlib.Logic.ExistsUnique

/-!
# What the reader of expressions accepts

`complete_eq_ok_iff`: with room for `room` brackets and calls inside each other, the reader returns
a tree exactly if the tree is accepted over all the tokens. Nothing else is returned, nothing
accepted is refused, and so no two accepted trees have the same tokens.

The induction is on the room, since brackets and calls use it up. Each of the lemmas before it says
what one token in front leads to.
-/

namespace Assertions

/-! ### The token in front -/

section

variable {names : Text → Bool} {room stop : Nat} {span : Span} {more rest : List PlacedToken}
  {e : Expr}

theorem operand_ref {side : Side} {path : Path} :
    operand names room stop (⟨.ref side path, span⟩ :: more) = .done (.ref span side path) := by
  cases room <;> rfl

theorem operand_string {content : Text} :
    operand names room stop (⟨.string content, span⟩ :: more) = .done (.string span content) := by
  cases room <;> rfl

theorem operand_number {value : Float} :
    operand names room stop (⟨.number value, span⟩ :: more) = .done (.number span value) := by
  cases room <;> rfl

theorem operand_statement {name : Text} :
    operand names room stop (⟨.statement name, span⟩ :: more) = .done (.statement span name) := by
  cases room <;> rfl

theorem not_operand_nil_gives : ¬(operand names room stop []).Gives e rest := by
  intro h
  cases room <;> cases h.1

theorem not_operand_closeBracket_gives :
    ¬(operand names room stop (⟨.closeBracket, span⟩ :: more)).Gives e rest := by
  intro h
  cases room <;> cases h.1

theorem signedNumber_gives_iff {op : Operator} :
    (signedNumber op span more).Gives e rest ↔
      op.isSign = true ∧ ∃ value digits, more = ⟨.number value, digits⟩ :: rest ∧
        e = .number ⟨span.start, digits.stop⟩ (op.signed value) := by
  unfold signedNumber
  split
  · rename_i value digits tail
    by_cases hsign : op.isSign = true
    · rw [if_pos hsign]
      constructor
      · rintro ⟨hvalue, hrest⟩
        cases hvalue
        cases hrest
        exact ⟨hsign, value, digits, rfl, rfl⟩
      · rintro ⟨-, _, _, heq, rfl⟩
        cases heq
        exact ⟨rfl, rfl⟩
    · rw [if_neg hsign]
      simp [Outcome.Gives, Outcome.fail, hsign]
  · rename_i hother
    constructor
    · intro h
      cases h.1
    · rintro ⟨-, value, digits, heq, -⟩
      exact absurd heq (hother value digits rest)

theorem operand_operator_gives_iff {op : Operator} :
    (operand names room stop (⟨.operator op, span⟩ :: more)).Gives e rest ↔
      (signedNumber op span more).Gives e rest := by
  cases room <;> exact Iff.rfl

theorem operand_call_gives_iff {name text : Text} {argsAt : Nat} :
    (operand names room stop (⟨.call name text argsAt, span⟩ :: more)).Gives e rest ↔
      ∃ inner args, room = inner + 1 ∧
        arguments (fragment (operand names inner) names) name argsAt (splitArguments text) =
          .ok args ∧
        e = .call span name args ∧ rest = more := by
  cases room with
  | zero =>
    constructor
    · intro h
      cases h.1
    · rintro ⟨inner, args, hroom, -⟩
      cases hroom
  | succ inner =>
    simp only [operand]
    cases hargs : arguments (fragment (operand names inner) names) name argsAt
        (splitArguments text) with
    | error fault =>
      constructor
      · intro h
        cases h.1
      · rintro ⟨_, args, hroom, hok, -⟩
        cases hroom
        rw [hargs] at hok
        cases hok
    | ok args =>
      constructor
      · rintro ⟨hvalue, hrest⟩
        cases hvalue
        exact ⟨inner, args, rfl, hargs, rfl, hrest.symm⟩
      · rintro ⟨_, args', hroom, hok, rfl, rfl⟩
        cases hroom
        rw [hargs] at hok
        cases hok
        exact ⟨rfl, rfl⟩

theorem closeGroup_gives_iff {bound : List PlacedToken} {inner : Outcome Expr bound} :
    (closeGroup span inner).Gives e rest ↔
      ∃ body closing, inner.Gives body (⟨.closeBracket, closing⟩ :: rest) ∧
        e = .group ⟨span.start, closing.stop⟩ body := by
  rcases inner with ⟨_ | body, left, hsuffix⟩
  · simp [closeGroup, Outcome.Gives]
  · cases left with
    | nil => simp [closeGroup, Outcome.Gives]
    | cons next tail =>
      obtain ⟨token, closing⟩ := next
      cases token with
      | closeBracket =>
        constructor
        · rintro ⟨hvalue, hrest⟩
          cases hvalue
          cases hrest
          exact ⟨body, closing, ⟨rfl, rfl⟩, rfl⟩
        · rintro ⟨_, _, ⟨hvalue, hrest⟩, rfl⟩
          cases hvalue
          cases hrest
          exact ⟨rfl, rfl⟩
      | _ => simp [closeGroup, Outcome.Gives]

theorem operand_openBracket_gives_iff :
    (operand names room stop (⟨.openBracket, span⟩ :: more)).Gives e rest ↔
      ∃ inner body closing, room = inner + 1 ∧
        (expression (operand names inner stop) more).Gives body
          (⟨.closeBracket, closing⟩ :: rest) ∧
        e = .group ⟨span.start, closing.stop⟩ body := by
  cases room with
  | zero =>
    constructor
    · intro h
      cases h.1
    · rintro ⟨inner, body, closing, hroom, -⟩
      cases hroom
  | succ inner =>
    constructor
    · intro (h : (closeGroup span (expression (operand names inner stop) more)).Gives e rest)
      obtain ⟨body, closing, hbody, he⟩ := closeGroup_gives_iff.1 h
      exact ⟨inner, body, closing, rfl, hbody, he⟩
    · rintro ⟨_, body, closing, hroom, hbody, he⟩
      cases hroom
      exact closeGroup_gives_iff.2 ⟨body, closing, hbody, he⟩

end

/-! ### Failures -/

section

variable {names : Text → Bool} {room stop : Nat} {span : Span} {tokens : List PlacedToken}
  {fault : Fault}

/-- An operator in the place of an operand is what a signed number fails with. -/
theorem eq_of_signedNumber_eq_error {op : Operator}
    (h : (signedNumber op span tokens).result = .error fault) :
    fault = ⟨.operatorForOperand op, span⟩ := by
  unfold signedNumber at h
  split at h
  · split at h
    · cases h
    · cases h
      rfl
  · cases h
    rfl

/-- A call with room left fails where its arguments do. -/
theorem arguments_eq_error_of_operand {name text : Text} {argsAt : Nat}
    (h : (operand names (room + 1) stop (⟨.call name text argsAt, span⟩ :: tokens)).result =
      .error fault) :
    arguments (fragment (operand names room) names) name argsAt (splitArguments text) =
      .error fault := by
  simp only [operand] at h
  split at h
  · rename_i hargs
    cases h
    exact hargs
  · cases h

/-- A group fails where its expression does, or at its bracket if that is not closed behind the
expression. -/
theorem eq_of_closeGroup_eq_error {bound : List PlacedToken} {inner : Outcome Expr bound}
    (h : (closeGroup span inner).result = .error fault) :
    inner.result = .error fault ∨ fault = ⟨.openGroup, span⟩ ∧
      ∃ e left, inner.Gives e left ∧ ∀ closing more, left ≠ ⟨.closeBracket, closing⟩ :: more := by
  unfold closeGroup at h
  split at h
  · cases h
    exact .inl rfl
  · rename_i e hsuffix
    cases h
    exact .inr ⟨rfl, e, [], ⟨rfl, rfl⟩, by rintro closing more ⟨⟩⟩
  · rename_i e token closing more hsuffix
    split at h
    · cases h
    · rename_i hother
      cases h
      refine .inr ⟨rfl, e, _, ⟨rfl, rfl⟩, ?_⟩
      rintro _ _ ⟨⟩
      exact hother hsuffix rfl HEq.rfl

/-- All the tokens together fail where the expression does, or at the token behind it. -/
theorem eq_of_complete_eq_error {operandUpTo : Nat → OperandReader} (hne : tokens ≠ [])
    (h : complete operandUpTo tokens = .error fault) :
    (expression (operandUpTo (endOf tokens)) tokens).result = .error fault ∨
      ∃ e token more, (expression (operandUpTo (endOf tokens)) tokens).Gives e
          (⟨token, fault.span⟩ :: more) ∧
        (token = .closeBracket ∧ fault.cause = .strayClose ∨ fault.cause = .strayToken token) := by
  cases tokens with
  | nil => exact absurd rfl hne
  | cons first others =>
    rw [complete] at h
    split at h
    · rename_i hread
      cases h
      exact .inl (by rw [hread])
    · cases h
    · rename_i e span more hsuffix hread
      cases h
      exact .inr ⟨e, _, more, ⟨by rw [hread], by rw [hread]⟩, .inl ⟨rfl, rfl⟩⟩
    · rename_i e token span more hsuffix _ hread
      cases h
      exact .inr ⟨e, token, more, ⟨by rw [hread], by rw [hread]⟩, .inr rfl⟩

end

/-! ### All the tokens -/

/-- All the tokens make up an expression if reading it leaves none. -/
theorem complete_eq_ok {operandUpTo : Nat → OperandReader} {tokens : List PlacedToken} {e : Expr}
    (htokens : tokens ≠ []) :
    complete operandUpTo tokens = .ok e ↔
      (expression (operandUpTo (endOf tokens)) tokens).Gives e [] := by
  cases tokens with
  | nil => exact absurd rfl htokens
  | cons first others =>
    simp only [complete]
    rcases hread : expression (operandUpTo (endOf (first :: others))) (first :: others) with
      ⟨_ | value, rest, hsuffix⟩
    · simp [Outcome.Gives]
    · cases rest with
      | nil => simp [Outcome.Gives]
      | cons next tail =>
        obtain ⟨token, span⟩ := next
        cases token <;> simp [Outcome.Gives]

/-- No tree has no tokens. -/
theorem Yields.ne_nil {names : Text → Bool} {tokens : List PlacedToken} {e : Expr}
    (h : Yields names tokens e) : tokens ≠ [] := by
  cases h <;> simp

theorem fragment_eq_ok {operandUpTo : Nat → OperandReader} {names : Text → Bool} {offset : Nat}
    {text : Text} {e : Expr} :
    fragment operandUpTo names offset text = .ok e ↔
      ∃ tokens, tokenize names offset text = .ok tokens ∧ complete operandUpTo tokens = .ok e := by
  unfold fragment
  cases tokenize names offset text with
  | error fault => simp
  | ok tokens => simp

theorem arguments_cons_eq_ok {readText : Nat → Text → Except Fault Expr} {name text : Text}
    {argsAt start : Nat} {others : List (Nat × Text)} {args : List Expr} :
    arguments readText name argsAt ((start, text) :: others) = .ok args ↔
      text ≠ [] ∧ ∃ e rest, readText (argsAt + start) text = .ok e ∧
        arguments readText name argsAt others = .ok rest ∧ args = e :: rest := by
  cases text with
  | nil => simp [arguments]
  | cons c tail =>
    simp only [arguments, List.isEmpty_cons, Bool.false_eq_true, if_false]
    cases readText (argsAt + start) (c :: tail) with
    | error fault => simp
    | ok e =>
      cases arguments readText name argsAt others with
      | error fault => simp
      | ok rest => simp [eq_comm]

/-- A reader that is exact for operands makes the whole exact. -/
theorem complete_eq_ok_of_exact {names : Text → Bool} {room : Nat}
    (h : ∀ stop, Exact names room 7 (operand names room stop)) {tokens : List PlacedToken}
    {e : Expr} : complete (operand names room) tokens = .ok e ↔ Accepted names room tokens e := by
  constructor
  · intro hread
    have htokens : tokens ≠ [] := by
      intro hnil
      rw [hnil] at hread
      cases hread
    obtain ⟨front, hfront, haccepted, -⟩ :=
      (exact_expression (h _)).sound _ _ _ ((complete_eq_ok htokens).1 hread)
    rw [List.append_nil] at hfront
    rwa [hfront]
  · intro haccepted
    have hread := (exact_expression (h (endOf tokens))).complete tokens e [] haccepted
      e.bindsAtLeast_one (by intro op span more heq; cases heq)
    rw [List.append_nil] at hread
    exact (complete_eq_ok haccepted.yields.ne_nil).2 hread

/-- The arguments that are read are the trees over their texts. -/
theorem arguments_eq_ok_iff {names : Text → Bool} {room argsAt : Nat} {name : Text}
    (h : ∀ stop, Exact names room 7 (operand names room stop)) {texts : List (Nat × Text)} :
    ∀ args, arguments (fragment (operand names room) names) name argsAt texts = .ok args ↔
      YieldsAll names argsAt texts args ∧ (∀ arg ∈ args, arg.IsOrdered) ∧
        Expr.nestingAll args ≤ room := by
  induction texts with
  | nil =>
    intro args
    constructor
    · intro hargs
      cases hargs
      exact ⟨.nil argsAt, by simp, Nat.zero_le _⟩
    · rintro ⟨hargs, -⟩
      cases hargs
      rfl
  | cons piece others ih =>
    obtain ⟨start, text⟩ := piece
    intro args
    rw [arguments_cons_eq_ok]
    constructor
    · rintro ⟨htext, e, rest, hread, hothers, rfl⟩
      obtain ⟨tokens, htokens, hcomplete⟩ := fragment_eq_ok.1 hread
      obtain ⟨found, hfound, rfl⟩ := tokenize_eq_ok_iff.1 htokens
      have haccepted := (complete_eq_ok_of_exact h).1 hcomplete
      obtain ⟨hyields, hordered, hnesting⟩ := (ih rest).1 hothers
      exact ⟨.cons htext hfound haccepted.yields hyields,
        List.forall_mem_cons.2 ⟨haccepted.ordered, hordered⟩,
        Nat.max_le.2 ⟨haccepted.nesting_le, hnesting⟩⟩
    · rintro ⟨hyields, hordered, hnesting⟩
      cases hyields with
      | cons htext hfound he hothers =>
        obtain ⟨hordered, hordereds⟩ := List.forall_mem_cons.1 hordered
        obtain ⟨hnesting, hnestings⟩ := Nat.max_le.1 hnesting
        exact ⟨htext, _, _,
          fragment_eq_ok.2 ⟨_, tokenize_eq_ok_iff.2 ⟨_, hfound, rfl⟩,
            (complete_eq_ok_of_exact h).2 ⟨he, hordered, hnesting⟩⟩,
          (ih _).2 ⟨hothers, hordereds, hnestings⟩, rfl⟩

/-! ### Operands -/

/-- A leaf is accepted. -/
theorem Accepted.leaf {names : Text → Bool} {room : Nat} {tokens : List PlacedToken} {e : Expr}
    (h : Yields names tokens e) (hnodes : e.nodes = [e])
    (hleaf : ∀ op left right, e ≠ .binary op left right) (hnesting : e.nesting = 0) :
    Accepted names room tokens e :=
  ⟨h, Expr.isOrdered_of_nodes_eq hnodes hleaf, by omega⟩

section

variable {names : Text → Bool} {room : Nat}
  (ih : ∀ inner, room = inner + 1 → ∀ stop, Exact names inner 7 (operand names inner stop))
include ih

/-- An operand that is read is an accepted tree. -/
theorem operand_sound (stop : Nat) (tokens : List PlacedToken) (e : Expr)
    (rest : List PlacedToken) (h : (operand names room stop tokens).Gives e rest) :
    ∃ front, tokens = front ++ rest ∧ Accepted names room front e ∧ e.BindsAtLeast 7 := by
  cases tokens with
  | nil => exact absurd h not_operand_nil_gives
  | cons first more =>
    obtain ⟨token, span⟩ := first
    cases token with
    | ref side path =>
      rw [operand_ref] at h
      obtain ⟨⟨⟩, ⟨⟩⟩ := h
      exact ⟨[_], rfl, .leaf (.ref side path span) rfl (by simp) rfl, trivial⟩
    | string content =>
      rw [operand_string] at h
      obtain ⟨⟨⟩, ⟨⟩⟩ := h
      exact ⟨[_], rfl, .leaf (.string content span) rfl (by simp) rfl, trivial⟩
    | number value =>
      rw [operand_number] at h
      obtain ⟨⟨⟩, ⟨⟩⟩ := h
      exact ⟨[_], rfl, .leaf (.number value span) rfl (by simp) rfl, trivial⟩
    | statement name =>
      rw [operand_statement] at h
      obtain ⟨⟨⟩, ⟨⟩⟩ := h
      exact ⟨[_], rfl, .leaf (.statement name span) rfl (by simp) rfl, trivial⟩
    | operator op =>
      obtain ⟨hsign, value, digits, rfl, rfl⟩ :=
        signedNumber_gives_iff.1 (operand_operator_gives_iff.1 h)
      exact ⟨[_, _], rfl, .leaf (.signed hsign span value digits) rfl (by simp) rfl, trivial⟩
    | closeBracket => exact absurd h not_operand_closeBracket_gives
    | call name text argsAt =>
      obtain ⟨inner, args, hroom, hargs, rfl, rfl⟩ := operand_call_gives_iff.1 h
      obtain ⟨hyields, hordered, hnesting⟩ := (arguments_eq_ok_iff (ih inner hroom) args).1 hargs
      refine ⟨[_], rfl, ⟨.call name text argsAt span hyields, ?_, ?_⟩, trivial⟩
      · exact Expr.isOrdered_call.2 hordered
      · rw [hroom]
        exact Nat.succ_le_succ hnesting
    | openBracket =>
      obtain ⟨inner, body, closing, hroom, hbody, rfl⟩ := operand_openBracket_gives_iff.1 h
      obtain ⟨middle, rfl, haccepted, -⟩ :=
        (exact_expression (ih inner hroom stop)).sound _ _ _ hbody
      refine ⟨⟨.openBracket, span⟩ :: middle ++ [⟨.closeBracket, closing⟩], by simp,
        ⟨.group span closing haccepted.yields, ?_, ?_⟩, trivial⟩
      · exact Expr.isOrdered_group.2 haccepted.ordered
      · rw [hroom]
        exact Nat.succ_le_succ haccepted.nesting_le

/-- An accepted tree whose root is not binary is read, whatever follows. -/
theorem operand_complete (stop : Nat) (front : List PlacedToken) (e : Expr)
    (rest : List PlacedToken) (h : Accepted names room front e) (hbinds : e.BindsAtLeast 7) :
    (operand names room stop (front ++ rest)).Gives e rest := by
  obtain ⟨hyields, hordered, hnesting⟩ := h
  cases hyields with
  | ref side path span =>
    rw [List.singleton_append, operand_ref]
    exact ⟨rfl, rfl⟩
  | string content span =>
    rw [List.singleton_append, operand_string]
    exact ⟨rfl, rfl⟩
  | number value span =>
    rw [List.singleton_append, operand_number]
    exact ⟨rfl, rfl⟩
  | statement name span =>
    rw [List.singleton_append, operand_statement]
    exact ⟨rfl, rfl⟩
  | signed hsign sign value digits =>
    apply operand_operator_gives_iff.2
    exact signedNumber_gives_iff.2 ⟨hsign, value, digits, rfl, rfl⟩
  | call name text argsAt span hargs =>
    rename_i args
    obtain ⟨inner, hroom⟩ : ∃ inner, room = inner + 1 :=
      ⟨room - 1, by simp only [Expr.nesting] at hnesting; omega⟩
    rw [hroom] at hnesting
    have hread : arguments (fragment (operand names inner) names) name argsAt
        (splitArguments text) = .ok args :=
      (arguments_eq_ok_iff (ih inner hroom) args).2
        ⟨hargs, Expr.isOrdered_call.1 hordered, Nat.le_of_succ_le_succ hnesting⟩
    exact operand_call_gives_iff.2 ⟨inner, args, hroom, hread, rfl, rfl⟩
  | group opening closing hinner =>
    rename_i tokens body
    obtain ⟨inner, hroom⟩ : ∃ inner, room = inner + 1 :=
      ⟨room - 1, by simp only [Expr.nesting] at hnesting; omega⟩
    rw [hroom] at hnesting
    have haccepted : Accepted names inner tokens body :=
      ⟨hinner, Expr.isOrdered_group.1 hordered, Nat.le_of_succ_le_succ hnesting⟩
    have hread := (exact_expression (ih inner hroom stop)).complete tokens body
      (⟨.closeBracket, closing⟩ :: rest) haccepted body.bindsAtLeast_one
      (by intro op span more heq; cases heq)
    rw [List.cons_append, List.cons_append, List.append_assoc, List.singleton_append]
    exact operand_openBracket_gives_iff.2 ⟨inner, body, closing, hroom, hread, rfl⟩
  | binary op span hleft hright =>
    exact absurd (Nat.le_trans hbinds op.precedence_le_six) (by decide)

end

/-- **Operands.** The reader of operands reads exactly the accepted trees whose root is not
binary. -/
theorem exact_operand (names : Text → Bool) :
    ∀ room stop, Exact names room 7 (operand names room stop) := by
  intro room
  induction room with
  | zero =>
    have hnone : ∀ inner, 0 = inner + 1 → ∀ stop, Exact names inner 7 (operand names inner stop) :=
      fun inner h => absurd h.symm (Nat.succ_ne_zero inner)
    intro stop
    exact ⟨operand_sound hnone stop, fun front e rest h hbinds _ =>
      operand_complete hnone stop front e rest h hbinds⟩
  | succ room ih =>
    have hroom : ∀ inner, room + 1 = inner + 1 →
        ∀ stop, Exact names inner 7 (operand names inner stop) :=
      fun inner h => Nat.succ.inj h ▸ ih
    intro stop
    exact ⟨operand_sound hroom stop, fun front e rest h hbinds _ =>
      operand_complete hroom stop front e rest h hbinds⟩

/-- **Acceptance.** The reader returns a tree if and only if it is accepted over all the tokens. -/
theorem complete_eq_ok_iff {names : Text → Bool} {room : Nat} {tokens : List PlacedToken}
    {e : Expr} : complete (operand names room) tokens = .ok e ↔ Accepted names room tokens e :=
  complete_eq_ok_of_exact (exact_operand names room)

/-- **The operator grammar.** Reading tokens returns exactly the accepted trees over them. There is
a result if and only if there is one accepted tree, and only one. -/
theorem ofTokens_eq_ok_iff (names : Text → Bool) (tokens : List PlacedToken) :
    (∀ e, Expr.ofTokens names tokens = .ok e ↔ Accepted names maxNesting tokens e) ∧
      ((∃ e, Expr.ofTokens names tokens = .ok e) ↔
        ∃! e, Accepted names maxNesting tokens e) := by
  have haccepted : ∀ e, Expr.ofTokens names tokens = .ok e ↔
      Accepted names maxNesting tokens e := fun e => complete_eq_ok_iff
  refine ⟨haccepted, ?_⟩
  constructor
  · rintro ⟨e, he⟩
    refine ⟨e, (haccepted e).1 he, ?_⟩
    intro other hother
    have heq := (haccepted other).2 hother
    rw [he] at heq
    cases heq
    rfl
  · rintro ⟨e, he, -⟩
    exact ⟨e, (haccepted e).2 he⟩

end Assertions
