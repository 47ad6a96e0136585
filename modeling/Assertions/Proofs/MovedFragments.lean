import Assertions.Proofs.Printing
import Assertions.Proofs.RunOutcomes

/-!
# Fragments at other positions

The position of a fragment comes in where its tokens are placed and where the arguments of its calls
are read, and each of these adds it once. So reading a fragment `k` bytes later gives the same tree
moved by `k`, or the same fault moved by `k` (`fragment_move`, `ofFragment_move`).

`OperandReader.Moves` says this of readers of tokens. It goes up from operands over operators and
groups to whole texts and arguments, and comes back to operands by induction on the room.

A fault at a call that is left over holds that call, together with the position of its arguments.
This position is moved too, and nothing that is said about the fault shows it
(`Fault.sameWords_move`).
-/

namespace Assertions

/-! ### Moved faults and results -/

/-- The cause as it is in a text that starts `offset` bytes later. Only a token that is left over
knows where it stands. -/
def Cause.shift (cause : Cause) (offset : Nat) : Cause :=
  match cause with
  | .strayToken token => .strayToken (token.shift offset)
  | other => other

/-- The fault as it is in a text that starts `offset` bytes later, with the token that it holds. -/
def Fault.move (fault : Fault) (offset : Nat) : Fault :=
  ⟨fault.cause.shift offset, fault.span.shift offset⟩

/-- Whether two faults differ at most in their spans, as far as they are told: they have the same
description, and if one is about an unknown function so is the other. -/
structure Fault.SameWords (fault other : Fault) : Prop where
  description : other.cause.description = fault.cause.description
  unknownFunction : ∀ name,
    other.cause = .unknownFunction name ↔ fault.cause = .unknownFunction name

/-- A moved fault is told in the same words. -/
theorem Fault.sameWords_move (fault : Fault) (offset : Nat) :
    fault.SameWords (fault.move offset) := by
  obtain ⟨cause, span⟩ := fault
  cases cause with
  | strayToken token => exact ⟨by cases token <;> rfl, fun name => ⟨nofun, nofun⟩⟩
  | _ => exact ⟨rfl, fun name => Iff.rfl⟩

theorem Cause.shift_of_isLexical {cause : Cause} (h : cause.isLexical = true) (offset : Nat) :
    cause.shift offset = cause := by
  cases cause with
  | strayToken => cases h
  | _ => rfl

section

variable {α : Type u} {β : Type v}

/-- The result as it is in a text that starts `offset` bytes later, given how its value moves. -/
def moveResult (offset : Nat) (move : α → β) : Except Fault α → Except Fault β
  | .ok a => .ok (move a)
  | .error fault => .error (fault.move offset)

/-- Where a fault holds no token, moving it is moving its span. -/
theorem shiftError_map_eq {k : Nat} {result : Except Fault α} (f : α → β)
    (h : ∀ fault, result = .error fault → fault.cause.shift k = fault.cause) :
    shiftError k (result.map f) = moveResult k f result := by
  cases result with
  | ok a => rfl
  | error fault =>
    show Except.error (fault.shift k) = .error (fault.move k)
    rw [Fault.move, h fault rfl]
    rfl

end

variable {names : Text → Bool} {k offset : Nat}

/-! ### Tokens -/

/-- Cutting a text into tokens fails without any token being left over. -/
theorem cause_shift_of_tokenizeWithin {room : Nat} {fault : Fault} :
    ∀ {offset : Nat} {text : Text}, tokenizeWithin names room offset text = .error fault →
      fault.cause.shift k = fault.cause := by
  induction room with
  | zero =>
    intro offset text h
    cases text with
    | nil => cases h
    | cons c rest =>
      cases h
      rfl
  | succ room ih =>
    intro offset text h
    cases text with
    | nil => cases h
    | cons c rest =>
      cases hread : Token.read names offset (c :: rest) with
      | error first =>
        rw [tokenizeWithin_cons, hread] at h
        cases h
        exact Cause.shift_of_isLexical (Token.isLexical_read hread).cause_eq k
      | ok lexeme =>
        rw [tokenizeWithin_of_read hread] at h
        cases hothers : tokenizeWithin names room (offset + Text.size lexeme.text) lexeme.rest with
        | ok others =>
          rw [hothers] at h
          cases h
        | error later =>
          rw [hothers] at h
          cases h
          exact ih hothers

/-- The tokens of a text that stands `k` bytes later are the tokens of the text, moved. -/
theorem tokenize_move (text : Text) :
    tokenize names (offset + k) text =
      moveResult k (List.map (·.shift k)) (tokenize names offset text) :=
  (tokenizeWithin_add names k maxTokens offset text).trans
    (shiftError_map_eq _ fun _ => cause_shift_of_tokenizeWithin)

/-- Only the empty text has no tokens. -/
theorem eq_nil_of_tokenize {text : Text} (h : tokenize names offset text = .ok []) : text = [] := by
  obtain ⟨hreads, -⟩ := tokenizeWithin_eq_ok_iff.1 h
  cases hreads
  rfl

/-- Moving tokens moves the end of the last one. -/
theorem endOf_map_shift {tokens : List PlacedToken} (h : tokens ≠ []) :
    endOf (tokens.map (·.shift k)) = endOf tokens + k := by
  obtain ⟨front, last, rfl⟩ := (List.eq_nil_or_concat tokens).resolve_left h
  simp [endOf, PlacedToken.shift, Span.shift]

/-- A moved token is an operator only if the token is. -/
theorem exists_of_map_shift_eq {tokens more : List PlacedToken} {op : Operator} {span : Span}
    (h : tokens.map (·.shift k) = ⟨.operator op, span⟩ :: more) :
    ∃ first others, tokens = ⟨.operator op, first⟩ :: others := by
  cases tokens with
  | nil => cases h
  | cons placed others =>
    obtain ⟨token, first⟩ := placed
    cases token with
    | operator op =>
      cases h
      exact ⟨first, others, rfl⟩
    | _ => cases h

/-! ### Operators -/

/-- A result and the tokens that are left, in a text that starts `offset` bytes later. -/
def moveSplit (offset : Nat) (split : Except Fault Expr × List PlacedToken) :
    Except Fault Expr × List PlacedToken :=
  (moveResult offset (Expr.shift offset) split.1, split.2.map (·.shift offset))

/-- Whether a second reader does with moved tokens what a first one does with the tokens. -/
def OperandReader.Moves (k : Nat) (reader later : OperandReader) : Prop :=
  ∀ tokens : List PlacedToken,
    (later (tokens.map (·.shift k))).split = moveSplit k (reader tokens).split

section

variable {reader later : OperandReader}

theorem extend_move (h : reader.Moves k later) (ops : List Operator) (left : Expr)
    (tokens : List PlacedToken) :
    (extend ops later (left.shift k) (tokens.map (·.shift k))).split =
      moveSplit k (extend ops reader left tokens).split := by
  fun_induction extend ops reader left tokens with
  | case1 left op span more hop fault rest hsuffix hfault =>
    have hmore := h more
    rw [hfault] at hmore
    exact split_extend_of_error (List.contains_iff_mem.1 hop) hmore
  | case2 left op span more hop right rest hsuffix hright ih =>
    have hmore := h more
    rw [hright] at hmore
    exact (split_extend_of_ok (List.contains_iff_mem.1 hop) hmore).trans ih
  | case3 left op span more hop =>
    rw [extend_of_stop]
    · rfl
    · rintro _ _ _ ⟨⟩
      simpa using hop
  | case4 left tokens hother =>
    rw [extend_of_stop]
    · rfl
    · intro op span more heq
      obtain ⟨first, others, rfl⟩ := exists_of_map_shift_eq heq
      exact (hother op first others rfl).elim

theorem level_move (h : reader.Moves k later) (ops : List Operator) :
    (level ops reader).Moves k (level ops later) := by
  intro tokens
  have htokens := h tokens
  rcases hread : reader tokens with ⟨_ | left, rest, hsuffix⟩
  · rw [hread] at htokens
    rw [split_level_of_error htokens, split_level_of_error (congrArg Outcome.split hread)]
    rfl
  · rw [hread] at htokens
    rw [split_level_of_ok htokens, split_level_of_ok (congrArg Outcome.split hread)]
    exact extend_move h ops left rest

theorem expression_move (h : reader.Moves k later) :
    (expression reader).Moves k (expression later) := by
  unfold expression
  induction Operator.ladder with
  | nil => exact h
  | cons ops others ih => exact level_move ih ops

end

/-! ### Groups, arguments and whole texts -/

theorem signedNumber_move (op : Operator) (sign : Span) (tokens : List PlacedToken) :
    (signedNumber op (sign.shift k) (tokens.map (·.shift k))).split =
      moveSplit k (signedNumber op sign tokens).split := by
  cases tokens with
  | nil => rfl
  | cons first more =>
    obtain ⟨token, span⟩ := first
    cases token with
    | number value =>
      simp only [PlacedToken.shift, Token.shift, signedNumber]
      split <;> rfl
    | _ => rfl

theorem closeGroup_move {bound wider : List PlacedToken} {inner : Outcome Expr bound}
    {later : Outcome Expr wider} (opening : Span) (h : later.split = moveSplit k inner.split) :
    (closeGroup (opening.shift k) later).split = moveSplit k (closeGroup opening inner).split := by
  obtain ⟨result, rest, hsuffix⟩ := inner
  cases result with
  | error fault => exact split_closeGroup_of_error h
  | ok e =>
    cases rest with
    | nil => exact split_closeGroup_of_nil h
    | cons first more =>
      obtain ⟨token, span⟩ := first
      cases token with
      | closeBracket => exact split_closeGroup_of_close h
      | _ => exact split_closeGroup_of_other h (by rintro ⟨⟩)

section

variable {readerUpTo : Nat → OperandReader}
  (h : ∀ stop, (readerUpTo stop).Moves k (readerUpTo (stop + k)))
include h

/-- The position after the last token moves with the tokens, so there has to be one. -/
theorem complete_move {tokens : List PlacedToken} (hne : tokens ≠ []) :
    complete readerUpTo (tokens.map (·.shift k)) =
      moveResult k (Expr.shift k) (complete readerUpTo tokens) := by
  have hread := expression_move (h (endOf tokens)) tokens
  rw [← endOf_map_shift hne] at hread
  cases tokens with
  | nil => exact absurd rfl hne
  | cons first others =>
    rw [List.map_cons] at hread ⊢
    rw [complete, complete]
    generalize expression (readerUpTo (endOf (first :: others))) (first :: others) = outcome
      at hread ⊢
    generalize expression (readerUpTo (endOf (first.shift k :: others.map (·.shift k))))
      (first.shift k :: others.map (·.shift k)) = moved at hread ⊢
    obtain ⟨result, rest, hsuffix⟩ := outcome
    obtain ⟨movedResult, movedRest, hmoved⟩ := moved
    obtain ⟨rfl, rfl⟩ := Prod.mk.inj hread
    cases result with
    | error fault => rfl
    | ok e =>
      cases rest with
      | nil => rfl
      | cons next more =>
        obtain ⟨token, span⟩ := next
        cases token <;> rfl

/-- **A fragment at another position.** A text that is not empty and stands `k` bytes later is read
as the same tree, moved, or fails with the same fault, moved. -/
theorem fragment_move {text : Text} (hne : text ≠ []) :
    fragment readerUpTo names (offset + k) text =
      moveResult k (Expr.shift k) (fragment readerUpTo names offset text) := by
  rw [fragment_eq_bind, fragment_eq_bind, tokenize_move]
  cases htokens : tokenize names offset text with
  | error fault => rfl
  | ok tokens =>
    refine complete_move h ?_
    rintro rfl
    exact hne (eq_nil_of_tokenize htokens)

end

theorem arguments_move {readText : (offset : Nat) → Text → Except Fault Expr}
    (h : ∀ offset text, text ≠ [] →
      readText (offset + k) text = moveResult k (Expr.shift k) (readText offset text))
    (name : Text) (offset : Nat) (pieces : List (Nat × Text)) :
    arguments readText name (offset + k) pieces =
      moveResult k (Expr.shiftAll k) (arguments readText name offset pieces) := by
  induction pieces with
  | nil => rfl
  | cons piece others ih =>
    obtain ⟨start, text⟩ := piece
    have hstart : offset + k + start = offset + start + k := Nat.add_right_comm offset k start
    by_cases htext : text = []
    · subst htext
      rw [arguments, arguments, hstart]
      rfl
    · rw [arguments_cons _ _ _ _ htext, arguments_cons _ _ _ _ htext, hstart, h _ _ htext, ih]
      cases readText (offset + start) text with
      | error fault => rfl
      | ok e => cases arguments readText name offset others <;> rfl

/-! ### Operands -/

theorem split_operandStep_call {inner : Nat → OperandReader} {stop argsAt : Nat} {name args : Text}
    {span : Span} {rest : List PlacedToken} :
    (operandStep names inner stop (⟨.call name args argsAt, span⟩ :: rest)).split =
      ((arguments (fragment inner names) name argsAt (splitArguments args)).map
        (.call span name), rest) := by
  rw [operandStep]
  cases arguments (fragment inner names) name argsAt (splitArguments args) <;> rfl

/-- An operand moves if what is read in groups and in arguments does. -/
theorem operandStep_move {inner : Nat → OperandReader}
    (h : ∀ stop, (inner stop).Moves k (inner (stop + k))) (stop : Nat) :
    (operandStep names inner stop).Moves k (operandStep names inner (stop + k)) := by
  intro tokens
  cases tokens with
  | nil => rfl
  | cons first rest =>
    obtain ⟨token, span⟩ := first
    cases token with
    | ref | string | number | statement | closeBracket => rfl
    | operator op => exact signedNumber_move op span rest
    | openBracket => exact closeGroup_move span (expression_move (h stop) rest)
    | call name args argsAt =>
      have hread : ∀ offset text, text ≠ [] → fragment inner names (offset + k) text =
          moveResult k (Expr.shift k) (fragment inner names offset text) :=
        fun offset text => fragment_move h
      have hargs := arguments_move hread name argsAt (splitArguments args)
      show (operandStep names inner (stop + k)
        (⟨.call name args (argsAt + k), span.shift k⟩ :: rest.map (·.shift k))).split = _
      rw [split_operandStep_call, split_operandStep_call, hargs]
      cases arguments (fragment inner names) name argsAt (splitArguments args) <;> rfl

/-- **Operands at another position.** The induction is on the room, as groups and arguments are read
with less of it. -/
theorem operand_move (room : Nat) :
    ∀ stop, (operand names room stop).Moves k (operand names room (stop + k)) := by
  induction room with
  | zero =>
    intro stop tokens
    cases tokens with
    | nil => rfl
    | cons first rest =>
      obtain ⟨token, span⟩ := first
      cases token with
      | operator op => exact signedNumber_move op span rest
      | _ => rfl
  | succ room ih =>
    intro stop tokens
    rw [operand_succ, operand_succ]
    exact operandStep_move ih stop tokens

/-- Reading a text at a position is reading it at the start and moving the result. -/
theorem ofFragment_move (names : Text → Bool) (depth base : Nat) {text : Text} (hne : text ≠ []) :
    Expr.ofFragment names depth base text =
      moveResult base (Expr.shift base) (Expr.ofFragment names depth 0 text) := by
  have hmove : Expr.ofFragment names depth (0 + base) text = _ :=
    fragment_move (operand_move (roomAt depth)) hne
  rwa [Nat.zero_add] at hmove

end Assertions
