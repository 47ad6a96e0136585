import Assertions.Expr.Cursor

/-!
# Runs of the reader

The readers of expressions are functions from the tokens that are left, and the room they are given
goes down by one inside each bracket. Here the same reading is followed as a run through the states
of one reader, which has passed some of the tokens and stands inside some brackets. It passes a
token, enters a bracket, and leaves it again when the run inside has come to its end, with an
expression or with a fault. `Runs` has a rule for each way in which reading can go on or stop.

By induction over the rules, a run does not come back to an earlier token, stays within the tokens,
and ends in as many brackets as it started in (`Runs.moves`). What starts with an operand passes a
token, unless there is none (`Runs.passes`). Every state has a run (`exists_run`): the induction
there is on the number of tokens left.
-/

namespace Assertions

/-- The state of a reader of tokens. -/
structure ReaderState where
  /-- The number of the tokens that it has passed. -/
  passed : Nat
  /-- The number of the brackets and calls around it. -/
  depth : Nat

namespace ReaderState

/-- The state behind one more token. -/
def advance (s : ReaderState) : ReaderState := { s with passed := s.passed + 1 }

/-- The state inside one more bracket. -/
def enter (s : ReaderState) : ReaderState := { s with depth := s.depth + 1 }

/-- The state outside the innermost bracket. -/
def leave (s : ReaderState) : ReaderState := { s with depth := s.depth - 1 }

@[simp] theorem advance_passed (s : ReaderState) : s.advance.passed = s.passed + 1 := rfl

@[simp] theorem advance_depth (s : ReaderState) : s.advance.depth = s.depth := rfl

@[simp] theorem enter_passed (s : ReaderState) : s.enter.passed = s.passed := rfl

@[simp] theorem enter_depth (s : ReaderState) : s.enter.depth = s.depth + 1 := rfl

@[simp] theorem leave_passed (s : ReaderState) : s.leave.passed = s.passed := rfl

end ReaderState

/-- What a reader is about to read. -/
inductive Phase where
  | operand
  /-- Operands with operators of some groups between them, the loosest group first. -/
  | level (levels : List (List Operator))
  /-- What is put on an expression by operators of one group, whose operands are made up by the
  groups behind it. -/
  | extension (ops : List Operator) (levels : List (List Operator)) (left : Expr)

/-- Whether a phase starts with an operand. -/
def Phase.StartsWithOperand : Phase → Prop
  | .operand | .level _ => True
  | .extension .. => False

/-- The expression that a token is by itself. -/
def PlacedToken.leaf? : PlacedToken → Option Expr
  | ⟨.ref side path, span⟩ => some (.ref span side path)
  | ⟨.string content, span⟩ => some (.string span content)
  | ⟨.number value, span⟩ => some (.number span value)
  | ⟨.statement name, span⟩ => some (.statement span name)
  | _ => none

/-- The runs of a reader through `tokens`: from a state to the result and the state after it. -/
inductive Runs (names : Text → Bool) (tokens : List PlacedToken) :
    Phase → ReaderState → Except Fault Expr → ReaderState → Prop
  | atEnd {s : ReaderState} (hnone : tokens[s.passed]? = none) :
    Runs names tokens .operand s (.error ⟨.endOfExpression, ⟨endOf tokens, endOf tokens⟩⟩) s
  | leaf {s : ReaderState} {placed : PlacedToken} {e : Expr}
    (hnext : tokens[s.passed]? = some placed) (hleaf : placed.leaf? = some e) :
    Runs names tokens .operand s (.ok e) s.advance
  | callTooDeep {s : ReaderState} {name args : Text} {argsAt : Nat} {span : Span}
    (hnext : tokens[s.passed]? = some ⟨.call name args argsAt, span⟩)
    (hdepth : maxNesting < s.depth + 1) :
    Runs names tokens .operand s (.error ⟨.tooDeep, span⟩) s.advance
  | call {s : ReaderState} {name args : Text} {argsAt : Nat} {span : Span}
    (hnext : tokens[s.passed]? = some ⟨.call name args argsAt, span⟩)
    (hdepth : s.depth + 1 ≤ maxNesting) :
    Runs names tokens .operand s
      ((arguments (Expr.ofFragment names (s.depth + 1)) name argsAt (splitArguments args)).map
        (.call span name)) s.advance
  | signed {s : ReaderState} {op : Operator} {sign digits : Span} {value : Float}
    (hnext : tokens[s.passed]? = some ⟨.operator op, sign⟩) (hop : op.isSign = true)
    (hnumber : tokens[s.passed + 1]? = some ⟨.number value, digits⟩) :
    Runs names tokens .operand s
      (.ok (.number ⟨sign.start, digits.stop⟩ (if op == .sub then -value else value)))
      s.advance.advance
  | operator {s : ReaderState} {op : Operator} {span : Span}
    (hnext : tokens[s.passed]? = some ⟨.operator op, span⟩)
    (hother : op.isSign = true →
      ∀ value digits, tokens[s.passed + 1]? ≠ some ⟨.number value, digits⟩) :
    Runs names tokens .operand s (.error ⟨.operatorForOperand op, span⟩) s.advance
  | closeBracket {s : ReaderState} {span : Span}
    (hnext : tokens[s.passed]? = some ⟨.closeBracket, span⟩) :
    Runs names tokens .operand s (.error ⟨.strayClose, span⟩) s.advance
  | groupTooDeep {s : ReaderState} {span : Span}
    (hnext : tokens[s.passed]? = some ⟨.openBracket, span⟩) (hdepth : maxNesting < s.depth + 1) :
    Runs names tokens .operand s (.error ⟨.tooDeep, span⟩) s.advance
  | groupFault {s t : ReaderState} {span : Span} {fault : Fault}
    (hnext : tokens[s.passed]? = some ⟨.openBracket, span⟩) (hdepth : s.depth + 1 ≤ maxNesting)
    (hinner : Runs names tokens (.level Operator.ladder) s.advance.enter (.error fault) t) :
    Runs names tokens .operand s (.error fault) t.leave
  | group {s t : ReaderState} {opening closing : Span} {e : Expr}
    (hnext : tokens[s.passed]? = some ⟨.openBracket, opening⟩) (hdepth : s.depth + 1 ≤ maxNesting)
    (hinner : Runs names tokens (.level Operator.ladder) s.advance.enter (.ok e) t)
    (hclose : tokens[t.passed]? = some ⟨.closeBracket, closing⟩) :
    Runs names tokens .operand s (.ok (.group ⟨opening.start, closing.stop⟩ e)) t.leave.advance
  | groupUnclosed {s t : ReaderState} {opening : Span} {e : Expr} {placed : PlacedToken}
    (hnext : tokens[s.passed]? = some ⟨.openBracket, opening⟩) (hdepth : s.depth + 1 ≤ maxNesting)
    (hinner : Runs names tokens (.level Operator.ladder) s.advance.enter (.ok e) t)
    (hother : tokens[t.passed]? = some placed) (hopen : placed.token ≠ .closeBracket) :
    Runs names tokens .operand s (.error ⟨.openGroup, opening⟩) t.leave.advance
  | groupAtEnd {s t : ReaderState} {opening : Span} {e : Expr}
    (hnext : tokens[s.passed]? = some ⟨.openBracket, opening⟩) (hdepth : s.depth + 1 ≤ maxNesting)
    (hinner : Runs names tokens (.level Operator.ladder) s.advance.enter (.ok e) t)
    (hnone : tokens[t.passed]? = none) :
    Runs names tokens .operand s (.error ⟨.openGroup, opening⟩) t.leave
  | tightest {s t : ReaderState} {result : Except Fault Expr}
    (hoperand : Runs names tokens .operand s result t) : Runs names tokens (.level []) s result t
  | levelFault {s t : ReaderState} {ops : List Operator} {levels : List (List Operator)}
    {fault : Fault} (hfirst : Runs names tokens (.level levels) s (.error fault) t) :
    Runs names tokens (.level (ops :: levels)) s (.error fault) t
  | level {s t u : ReaderState} {ops : List Operator} {levels : List (List Operator)} {left : Expr}
    {result : Except Fault Expr} (hfirst : Runs names tokens (.level levels) s (.ok left) t)
    (hmore : Runs names tokens (.extension ops levels left) t result u) :
    Runs names tokens (.level (ops :: levels)) s result u
  | stop {s : ReaderState} {ops : List Operator} {levels : List (List Operator)} {left : Expr}
    (hstop : ∀ op span, tokens[s.passed]? = some ⟨.operator op, span⟩ → op ∉ ops) :
    Runs names tokens (.extension ops levels left) s (.ok left) s
  | extensionFault {s t : ReaderState} {ops : List Operator} {levels : List (List Operator)}
    {left : Expr} {op : Operator} {span : Span} {fault : Fault}
    (hnext : tokens[s.passed]? = some ⟨.operator op, span⟩) (hop : op ∈ ops)
    (hright : Runs names tokens (.level levels) s.advance (.error fault) t) :
    Runs names tokens (.extension ops levels left) s (.error fault) t
  | extension {s t u : ReaderState} {ops : List Operator} {levels : List (List Operator)}
    {left right : Expr} {op : Operator} {span : Span} {result : Except Fault Expr}
    (hnext : tokens[s.passed]? = some ⟨.operator op, span⟩) (hop : op ∈ ops)
    (hright : Runs names tokens (.level levels) s.advance (.ok right) t)
    (hmore : Runs names tokens (.extension ops levels (.binary op left right)) t result u) :
    Runs names tokens (.extension ops levels left) s result u

namespace Runs

variable {names : Text → Bool} {tokens : List PlacedToken} {phase : Phase} {s t : ReaderState}
  {result : Except Fault Expr}

/-! ### Where a run leads -/

/-- Whether a state comes after another one among tokens, inside as many brackets. -/
structure Moves (tokens : List PlacedToken) (s t : ReaderState) : Prop where
  depth_eq : t.depth = s.depth
  passed_le : s.passed ≤ t.passed
  le_length : t.passed ≤ tokens.length

theorem Moves.trans {u : ReaderState} (h : Moves tokens s t) (hmore : Moves tokens t u) :
    Moves tokens s u :=
  ⟨hmore.depth_eq.trans h.depth_eq, Nat.le_trans h.passed_le hmore.passed_le, hmore.le_length⟩

/-- There is a token to pass. -/
theorem lt_length {i : Nat} {placed : PlacedToken} (h : tokens[i]? = some placed) :
    i < tokens.length :=
  (List.getElem?_eq_some_iff.1 h).1

theorem moves_advance {placed : PlacedToken} (h : tokens[s.passed]? = some placed) :
    Moves tokens s s.advance :=
  ⟨rfl, Nat.le_succ _, lt_length h⟩

/-- Brackets that were entered are left. -/
theorem moves_leave (h : Moves tokens s.advance.enter t) : Moves tokens s t.leave := by
  obtain ⟨hdepth, hpassed, hlength⟩ := h
  simp only [ReaderState.enter_depth, ReaderState.enter_passed, ReaderState.advance_passed,
    ReaderState.advance_depth] at hdepth hpassed
  refine ⟨?_, ?_, hlength⟩
  · show t.depth - 1 = s.depth
    omega
  · show s.passed ≤ t.passed
    omega

/-- **Where a run leads.** A run does not come back to an earlier token, stays within the tokens and
ends inside the brackets that it started in. -/
theorem moves (h : Runs names tokens phase s result t) (hs : s.passed ≤ tokens.length) :
    Moves tokens s t := by
  induction h with
  | atEnd | stop => exact ⟨rfl, Nat.le_refl _, hs⟩
  | leaf hnext | callTooDeep hnext | call hnext | operator hnext | closeBracket hnext
  | groupTooDeep hnext => exact moves_advance hnext
  | signed hnext hop hnumber => exact (moves_advance hnext).trans (moves_advance hnumber)
  | groupFault hnext hdepth hinner ih | groupAtEnd hnext hdepth hinner hnone ih =>
    exact moves_leave (ih (lt_length hnext))
  | group hnext hdepth hinner hclose ih =>
    exact (moves_leave (ih (lt_length hnext))).trans (moves_advance hclose)
  | groupUnclosed hnext hdepth hinner hother hopen ih =>
    exact (moves_leave (ih (lt_length hnext))).trans (moves_advance hother)
  | tightest hoperand ih => exact ih hs
  | levelFault hfirst ih => exact ih hs
  | level hfirst hmore ihfirst ihmore =>
    have hmoves := ihfirst hs
    exact hmoves.trans (ihmore hmoves.le_length)
  | extensionFault hnext hop hright ih =>
    exact (moves_advance hnext).trans (ih (lt_length hnext))
  | extension hnext hop hright hmore ihright ihmore =>
    have hmoves := (moves_advance hnext).trans (ihright (lt_length hnext))
    exact hmoves.trans (ihmore hmoves.le_length)

/-- Whether a run passes a token, or else fails at the end of the tokens and stays there. -/
def Passes (tokens : List PlacedToken) (s : ReaderState) (result : Except Fault Expr)
    (t : ReaderState) : Prop :=
  s.passed < t.passed ∨ tokens.length ≤ s.passed ∧ t = s ∧ ∃ fault, result = .error fault

/-- **Progress.** What starts with an operand passes a token, or fails where there is none. -/
theorem passes (h : Runs names tokens phase s result t) (hs : s.passed ≤ tokens.length)
    (hphase : phase.StartsWithOperand) : Passes tokens s result t := by
  induction h with
  | atEnd hnone => exact .inr ⟨List.getElem?_eq_none_iff.1 hnone, rfl, _, rfl⟩
  | leaf | callTooDeep | call | operator | closeBracket | groupTooDeep =>
    exact .inl (Nat.lt_succ_self _)
  | signed => exact .inl (Nat.lt_succ_of_lt (Nat.lt_succ_self _))
  | groupFault hnext hdepth hinner | groupAtEnd hnext hdepth hinner =>
    exact .inl (hinner.moves (lt_length hnext)).passed_le
  | group hnext hdepth hinner | groupUnclosed hnext hdepth hinner =>
    exact .inl (Nat.lt_succ_of_lt (hinner.moves (lt_length hnext)).passed_le)
  | tightest hoperand ih => exact ih hs trivial
  | levelFault hfirst ih => exact ih hs trivial
  | level hfirst hmore ih =>
    rcases ih hs trivial with hlt | ⟨-, -, fault, hfault⟩
    · have hle := (hmore.moves (hfirst.moves hs).le_length).passed_le
      exact .inl (Nat.lt_of_lt_of_le hlt hle)
    · cases hfault
  | stop | extensionFault | extension => exact hphase.elim

/-- Where no operand is read all levels fail. -/
theorem level_of_fault {fault : Fault} (h : Runs names tokens .operand s (.error fault) t)
    (levels : List (List Operator)) : Runs names tokens (.level levels) s (.error fault) t := by
  induction levels with
  | nil => exact .tightest h
  | cons ops levels ih => exact .levelFault ih

end Runs

/-! ### Every state has a run -/

section

variable {names : Text → Bool} {tokens : List PlacedToken} {s : ReaderState}

/-- An operand is read if the expression in its brackets is, which starts behind a token. -/
theorem exists_run_operand
    (hlater : ∀ t, s.passed < t.passed → t.passed ≤ tokens.length →
      ∃ result u, Runs names tokens (.level Operator.ladder) t result u) :
    ∃ result t, Runs names tokens .operand s result t := by
  cases hnext : tokens[s.passed]? with
  | none => exact ⟨_, _, .atEnd hnext⟩
  | some placed =>
    obtain ⟨token, span⟩ := placed
    cases token with
    | ref | string | number | statement => exact ⟨_, _, .leaf hnext rfl⟩
    | closeBracket => exact ⟨_, _, .closeBracket hnext⟩
    | operator op =>
      by_cases hsigned : op.isSign = true ∧
          ∃ value digits, tokens[s.passed + 1]? = some ⟨.number value, digits⟩
      · obtain ⟨hop, value, digits, hnumber⟩ := hsigned
        exact ⟨_, _, .signed hnext hop hnumber⟩
      · refine ⟨_, _, .operator hnext ?_⟩
        intro hop value digits hnumber
        exact hsigned ⟨hop, value, digits, hnumber⟩
    | call name args argsAt =>
      by_cases hdepth : s.depth + 1 ≤ maxNesting
      · exact ⟨_, _, .call hnext hdepth⟩
      · exact ⟨_, _, .callTooDeep hnext (Nat.lt_of_not_le hdepth)⟩
    | openBracket =>
      by_cases hdepth : s.depth + 1 ≤ maxNesting
      · obtain ⟨result, t, hinner⟩ :=
          hlater s.advance.enter (Nat.lt_succ_self _) (Runs.lt_length hnext)
        cases result with
        | error fault => exact ⟨_, _, .groupFault hnext hdepth hinner⟩
        | ok e =>
          cases hclose : tokens[t.passed]? with
          | none => exact ⟨_, _, .groupAtEnd hnext hdepth hinner hclose⟩
          | some placed =>
            obtain ⟨token, closing⟩ := placed
            by_cases htoken : token = .closeBracket
            · rw [htoken] at hclose
              exact ⟨_, _, .group hnext hdepth hinner hclose⟩
            · exact ⟨_, _, .groupUnclosed hnext hdepth hinner hclose htoken⟩
      · exact ⟨_, _, .groupTooDeep hnext (Nat.lt_of_not_le hdepth)⟩

/-- A level is read if its first operand is, and what comes behind a token. -/
theorem exists_run_level (hs : s.passed ≤ tokens.length)
    (hoperand : ∃ result t, Runs names tokens .operand s result t)
    (hlater : ∀ phase t, s.passed < t.passed → t.passed ≤ tokens.length →
      ∃ result u, Runs names tokens phase t result u) (levels : List (List Operator)) :
    ∃ result t, Runs names tokens (.level levels) s result t := by
  induction levels with
  | nil =>
    obtain ⟨result, t, hrun⟩ := hoperand
    exact ⟨_, _, .tightest hrun⟩
  | cons ops levels ih =>
    obtain ⟨result, t, hfirst⟩ := ih
    cases result with
    | error fault => exact ⟨_, _, .levelFault hfirst⟩
    | ok left =>
      rcases hfirst.passes hs trivial with hlt | ⟨-, -, fault, hfault⟩
      · obtain ⟨result, u, hmore⟩ :=
          hlater (.extension ops levels left) t hlt (hfirst.moves hs).le_length
        exact ⟨_, _, .level hfirst hmore⟩
      · cases hfault

/-- An expression is extended if what comes behind a token is read. -/
theorem exists_run_extension
    (hlater : ∀ phase t, s.passed < t.passed → t.passed ≤ tokens.length →
      ∃ result u, Runs names tokens phase t result u) (ops : List Operator)
    (levels : List (List Operator)) (left : Expr) :
    ∃ result t, Runs names tokens (.extension ops levels left) s result t := by
  by_cases hstop : ∀ op span, tokens[s.passed]? = some ⟨.operator op, span⟩ → op ∉ ops
  · exact ⟨_, _, .stop hstop⟩
  · obtain ⟨op, span, hnext, hop⟩ : ∃ op span,
        tokens[s.passed]? = some ⟨.operator op, span⟩ ∧ op ∈ ops := by
      simpa using hstop
    have hlt := Runs.lt_length hnext
    obtain ⟨result, t, hright⟩ := hlater (.level levels) s.advance (Nat.lt_succ_self _) hlt
    cases result with
    | error fault => exact ⟨_, _, .extensionFault hnext hop hright⟩
    | ok right =>
      have hmoves := hright.moves hlt
      obtain ⟨result, u, hmore⟩ :=
        hlater (.extension ops levels (.binary op left right)) t hmoves.passed_le hmoves.le_length
      exact ⟨_, _, .extension hnext hop hright hmore⟩

/-- **Runs exist.** Every phase has a run from every state within the tokens. -/
theorem exists_run (names : Text → Bool) (phase : Phase) (hs : s.passed ≤ tokens.length) :
    ∃ result t, Runs names tokens phase s result t := by
  generalize hleft : tokens.length - s.passed = left
  induction left using Nat.strongRecOn generalizing phase s with
  | ind left ih =>
    have hlater : ∀ phase t, s.passed < t.passed → t.passed ≤ tokens.length →
        ∃ result u, Runs names tokens phase t result u := by
      intro phase t hlt hle
      exact ih (tokens.length - t.passed) (by omega) phase hle rfl
    have hoperand := exists_run_operand (hlater (.level Operator.ladder))
    cases phase with
    | operand => exact hoperand
    | level levels => exact exists_run_level hs hoperand hlater levels
    | extension ops levels left => exact exists_run_extension hlater ops levels left

end

end Assertions
