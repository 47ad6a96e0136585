import Assertions.Proofs.Runs
import Assertions.Proofs.Unlimited

/-!
# Outcomes of runs

A run of a reader gives what the functions give that read expressions, and leaves the same tokens
(`Runs.outcome_eq`). So there is one run from each state (`Runs.unique`). The room that the
functions are given is what the brackets around a state leave.
-/

namespace Assertions

/-! ### Outcomes without their bounds -/

section

variable {ops : List Operator} {operand : OperandReader} {tokens more rest : List PlacedToken}
  {fault : Fault} {left right : Expr} {op : Operator} {span : Span}

theorem split_level_of_ok (h : (operand tokens).split = (.ok left, rest)) :
    (level ops operand tokens).split = (extend ops operand left rest).split := by
  unfold level
  rcases htokens : operand tokens with ⟨_ | first, after, hsuffix⟩
  · rw [htokens] at h
    cases h
  · rw [htokens] at h
    cases h
    rfl

theorem split_extend_of_ok (hop : op ∈ ops) (h : (operand more).split = (.ok right, rest)) :
    (extend ops operand left (⟨.operator op, span⟩ :: more)).split =
      (extend ops operand (.binary op left right) rest).split := by
  rw [extend.eq_def]
  simp only [List.contains_iff_mem, hop, if_true]
  rcases hmore : operand more with ⟨_ | second, after, hsuffix⟩
  · rw [hmore] at h
    cases h
  · rw [hmore] at h
    cases h
    rfl

theorem split_signedNumber_of_other
    (h : op.isSign = true → ∀ value digits more, tokens ≠ ⟨.number value, digits⟩ :: more) :
    (signedNumber op span tokens).split = (.error ⟨.operatorForOperand op, span⟩, tokens) := by
  unfold signedNumber
  split
  · rename_i value digits more
    have hsign : ¬op.isSign = true := fun hop => h hop value digits more rfl
    rw [if_neg hsign]
    rfl
  · rfl

section

variable {opening : Span} {e : Expr} {inner : Outcome Expr tokens}

theorem split_closeGroup_of_error (h : inner.split = (.error fault, rest)) :
    (closeGroup opening inner).split = (.error fault, rest) := by
  obtain ⟨result, after, hsuffix⟩ := inner
  cases h
  rfl

theorem split_closeGroup_of_close (h : inner.split = (.ok e, ⟨.closeBracket, span⟩ :: rest)) :
    (closeGroup opening inner).split = (.ok (.group ⟨opening.start, span.stop⟩ e), rest) := by
  obtain ⟨result, after, hsuffix⟩ := inner
  cases h
  rfl

theorem split_closeGroup_of_other {placed : PlacedToken} (h : inner.split = (.ok e, placed :: rest))
    (hother : placed.token ≠ .closeBracket) :
    (closeGroup opening inner).split = (.error ⟨.openGroup, opening⟩, rest) := by
  obtain ⟨result, after, hsuffix⟩ := inner
  obtain ⟨token, span⟩ := placed
  cases h
  cases token with
  | closeBracket => exact absurd rfl hother
  | _ => rfl

theorem split_closeGroup_of_nil (h : inner.split = (.ok e, [])) :
    (closeGroup opening inner).split = (.error ⟨.openGroup, opening⟩, []) := by
  obtain ⟨result, after, hsuffix⟩ := inner
  cases h
  rfl

end

end

/-- What the functions give for a phase that starts with `tokens`. -/
def outcomeOf (reader : OperandReader) (tokens : List PlacedToken) :
    Phase → Except Fault Expr × List PlacedToken
  | .operand => (reader tokens).split
  | .level levels => (levels.foldr level reader tokens).split
  | .extension ops levels left => (extend ops (levels.foldr level reader) left tokens).split

/-! ### Runs and outcomes -/

theorem drop_of_getElem? {tokens : List PlacedToken} {i : Nat} {placed : PlacedToken}
    (h : tokens[i]? = some placed) : tokens.drop i = placed :: tokens.drop (i + 1) := by
  obtain ⟨hlt, rfl⟩ := List.getElem?_eq_some_iff.1 h
  exact List.drop_eq_getElem_cons hlt

theorem getElem?_of_drop {tokens more : List PlacedToken} {i : Nat} {placed : PlacedToken}
    (h : tokens.drop i = placed :: more) : tokens[i]? = some placed := by
  rw [← List.head?_drop, h, List.head?_cons]

theorem drop_of_getElem?_eq_none {tokens : List PlacedToken} {i : Nat} (h : tokens[i]? = none) :
    tokens.drop i = [] :=
  List.drop_eq_nil_of_le (List.getElem?_eq_none_iff.1 h)

/-- There is no room left inside too many brackets. -/
theorem roomAt_eq_zero {depth : Nat} (h : maxNesting < depth + 1) : roomAt depth = 0 :=
  Nat.sub_eq_zero_of_le (Nat.le_of_lt_succ h)

/-- A bracket takes up room. -/
theorem roomAt_eq_succ {depth : Nat} (h : depth + 1 ≤ maxNesting) :
    roomAt depth = roomAt (depth + 1) + 1 := by
  unfold roomAt
  omega

section

variable {names : Text → Bool} {stop depth : Nat} {span : Span} {rest : List PlacedToken}

theorem operand_leaf {placed : PlacedToken} {e : Expr} (h : placed.leaf? = some e) (room : Nat) :
    (operand names room stop (placed :: rest)).split = (.ok e, rest) := by
  obtain ⟨token, span⟩ := placed
  cases token with
  | ref | string | number | statement =>
    cases h
    cases room <;> rfl
  | _ => cases h

theorem operand_call {name args : Text} {argsAt : Nat} (h : depth + 1 ≤ maxNesting) :
    (operand names (roomAt depth) stop (⟨.call name args argsAt, span⟩ :: rest)).split =
      ((arguments (Expr.ofFragment names (depth + 1)) name argsAt (splitArguments args)).map
        (.call span name), rest) := by
  rw [roomAt_eq_succ h, operand_succ]
  have hread : Expr.ofFragment names (depth + 1) =
      fragment (operand names (roomAt (depth + 1))) names := rfl
  rw [hread]
  simp only [operandStep]
  cases arguments (fragment (operand names (roomAt (depth + 1))) names) name argsAt
    (splitArguments args) <;> rfl

theorem operand_openBracket (h : depth + 1 ≤ maxNesting) :
    (operand names (roomAt depth) stop (⟨.openBracket, span⟩ :: rest)).split =
      (closeGroup span (expression (operand names (roomAt (depth + 1)) stop) rest)).split := by
  rw [roomAt_eq_succ h, operand_succ]
  rfl

end

namespace Runs

variable {names : Text → Bool} {tokens : List PlacedToken} {phase : Phase} {s t : ReaderState}
  {result : Except Fault Expr}

/-- **Runs and outcomes.** A run gives what the functions give, and leaves the same tokens. -/
theorem outcome_eq (h : Runs names tokens phase s result t) (hs : s.passed ≤ tokens.length) :
    outcomeOf (operand names (roomAt s.depth) (endOf tokens)) (tokens.drop s.passed) phase =
      (result, tokens.drop t.passed) := by
  induction h with
  | atEnd hnone =>
    rw [outcomeOf, drop_of_getElem?_eq_none hnone, operand_nil]
    rfl
  | leaf hnext hleaf =>
    rw [outcomeOf, drop_of_getElem? hnext]
    exact operand_leaf hleaf _
  | callTooDeep hnext hdepth =>
    rw [outcomeOf, drop_of_getElem? hnext, roomAt_eq_zero hdepth]
    rfl
  | call hnext hdepth =>
    rw [outcomeOf, drop_of_getElem? hnext, operand_call hdepth]
    rfl
  | signed hnext hop hnumber =>
    rw [outcomeOf, drop_of_getElem? hnext, operand_operator, drop_of_getElem? hnumber,
      signedNumber, if_pos hop]
    rfl
  | operator hnext hother =>
    rw [outcomeOf, drop_of_getElem? hnext, operand_operator]
    apply split_signedNumber_of_other
    intro hop value digits more heq
    exact hother hop value digits (getElem?_of_drop heq)
  | closeBracket hnext =>
    rw [outcomeOf, drop_of_getElem? hnext, operand_closeBracket]
    rfl
  | groupTooDeep hnext hdepth =>
    rw [outcomeOf, drop_of_getElem? hnext, roomAt_eq_zero hdepth]
    rfl
  | groupFault hnext hdepth hinner ih =>
    rw [outcomeOf, drop_of_getElem? hnext, operand_openBracket hdepth]
    exact split_closeGroup_of_error (ih (lt_length hnext))
  | group hnext hdepth hinner hclose ih =>
    have hread := ih (lt_length hnext)
    rw [drop_of_getElem? hclose] at hread
    rw [outcomeOf, drop_of_getElem? hnext, operand_openBracket hdepth]
    exact split_closeGroup_of_close hread
  | groupUnclosed hnext hdepth hinner hother hopen ih =>
    have hread := ih (lt_length hnext)
    rw [drop_of_getElem? hother] at hread
    rw [outcomeOf, drop_of_getElem? hnext, operand_openBracket hdepth]
    exact split_closeGroup_of_other hread hopen
  | groupAtEnd hnext hdepth hinner hnone ih =>
    have hread := ih (lt_length hnext)
    rw [drop_of_getElem?_eq_none hnone] at hread
    rw [outcomeOf, drop_of_getElem? hnext, operand_openBracket hdepth]
    rw [ReaderState.leave_passed, drop_of_getElem?_eq_none hnone]
    exact split_closeGroup_of_nil hread
  | tightest hoperand ih => exact ih hs
  | levelFault hfirst ih => exact split_level_of_error (ih hs)
  | level hfirst hmore ihfirst ihmore =>
    have hmoves := hfirst.moves hs
    have hrest := ihmore hmoves.le_length
    rw [hmoves.depth_eq] at hrest
    exact (split_level_of_ok (ihfirst hs)).trans hrest
  | stop hstop =>
    rw [outcomeOf, extend_of_stop]
    · rfl
    · intro op span more heq
      exact hstop op span (getElem?_of_drop heq)
  | extensionFault hnext hop hright ih =>
    rw [outcomeOf, drop_of_getElem? hnext]
    exact split_extend_of_error hop (ih (lt_length hnext))
  | extension hnext hop hright hmore ihright ihmore =>
    have hmoves := (moves_advance hnext).trans (hright.moves (lt_length hnext))
    have hrest := ihmore hmoves.le_length
    rw [hmoves.depth_eq] at hrest
    rw [outcomeOf, drop_of_getElem? hnext]
    exact (split_extend_of_ok hop (ihright (lt_length hnext))).trans hrest

/-- A run is determined by the state in which it starts. -/
theorem unique {result' : Except Fault Expr} {t' : ReaderState}
    (h : Runs names tokens phase s result t) (h' : Runs names tokens phase s result' t')
    (hs : s.passed ≤ tokens.length) : result' = result ∧ t' = t := by
  obtain ⟨hresult, hdrop⟩ := Prod.mk.inj ((h'.outcome_eq hs).symm.trans (h.outcome_eq hs))
  have hmoves := h.moves hs
  have hmoves' := h'.moves hs
  have hpassed : t'.passed = t.passed := by
    have hlength := congrArg List.length hdrop
    rw [List.length_drop, List.length_drop] at hlength
    have hle := hmoves.le_length
    have hle' := hmoves'.le_length
    omega
  have hdepth : t'.depth = t.depth := hmoves'.depth_eq.trans hmoves.depth_eq.symm
  obtain ⟨passed, depth⟩ := t
  obtain ⟨passed', depth'⟩ := t'
  cases hpassed
  cases hdepth
  exact ⟨hresult, rfl⟩

end Runs

end Assertions
