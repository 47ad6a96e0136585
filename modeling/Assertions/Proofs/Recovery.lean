import Assertions.Proofs.RunOutcomes

/-!
# Recovery

A reader of expressions can be asked for the next one again and again, also after a fault. Each time
it gets on by a token at least and stands inside as many brackets as before, wherever in nested
brackets it had to stop (`ReadsNext.recovers`). At the end of the tokens it fails and does not move.
So asking until all tokens have been passed comes to an end: a list of tokens holds no more
expressions and faults than tokens (`ReadsToEnd.length_le`).

All this is said of runs, in which the brackets are counted, and a `Cursor` goes through the same
states (`ReadsNext.next_eq`).
-/

namespace Assertions

/-- Whether the next expression, or a fault, is read in a state. -/
def ReadsNext (names : Text → Bool) (tokens : List PlacedToken) (s : ReaderState)
    (result : Except Fault Expr) (t : ReaderState) : Prop :=
  Runs names tokens (.level Operator.ladder) s result t

/-- Reading any number of times, whatever the results are. -/
inductive ReadsOn (names : Text → Bool) (tokens : List PlacedToken) :
    ReaderState → List (Except Fault Expr) → ReaderState → Prop
  | nil (s : ReaderState) : ReadsOn names tokens s [] s
  | cons {s t u : ReaderState} {result : Except Fault Expr} {results : List (Except Fault Expr)}
    (hfirst : ReadsNext names tokens s result t) (hmore : ReadsOn names tokens t results u) :
    ReadsOn names tokens s (result :: results) u

/-- Reading until all tokens have been passed. -/
inductive ReadsToEnd (names : Text → Bool) (tokens : List PlacedToken) :
    ReaderState → List (Except Fault Expr) → ReaderState → Prop
  | done {s : ReaderState} (hend : tokens.length ≤ s.passed) : ReadsToEnd names tokens s [] s
  | next {s t u : ReaderState} {result : Except Fault Expr} {results : List (Except Fault Expr)}
    (hleft : s.passed < tokens.length) (hfirst : ReadsNext names tokens s result t)
    (hmore : ReadsToEnd names tokens t results u) :
    ReadsToEnd names tokens s (result :: results) u

/-- Whether a reader is ready to go on after it has read once: it stands inside as many brackets as
before and has passed a token, or it has failed at the end and stays there. -/
structure Recovers (tokens : List PlacedToken) (s : ReaderState) (result : Except Fault Expr)
    (t : ReaderState) : Prop where
  depth_eq : t.depth = s.depth
  le_length : t.passed ≤ tokens.length
  passes : s.passed < tokens.length → s.passed < t.passed
  at_end : tokens.length ≤ s.passed → t = s ∧ ∃ fault, result = .error fault

/-- The cursor in a state. -/
def ReaderState.cursor (names : Text → Bool) (tokens : List PlacedToken) (s : ReaderState) :
    Cursor :=
  ⟨names, s.depth, endOf tokens, tokens.drop s.passed⟩

variable {names : Text → Bool} {tokens : List PlacedToken} {s t : ReaderState}
  {result : Except Fault Expr} {results : List (Except Fault Expr)}

/-! ### Reading once -/

theorem ReadsNext.recovers (h : ReadsNext names tokens s result t)
    (hs : s.passed ≤ tokens.length) : Recovers tokens s result t := by
  have hmoves := h.moves hs
  refine ⟨hmoves.depth_eq, hmoves.le_length, ?_, ?_⟩
  · intro hlt
    rcases h.passes hs trivial with hpasses | ⟨hend, -⟩
    · exact hpasses
    · exact absurd hlt (Nat.not_lt_of_le hend)
  · intro hend
    rcases h.passes hs trivial with hpasses | ⟨-, hfails⟩
    · have hle := hmoves.le_length
      omega
    · exact hfails

/-- A cursor reads what a run gives, and stands behind it where the run ends. -/
theorem ReadsNext.next_eq (h : ReadsNext names tokens s result t)
    (hs : s.passed ≤ tokens.length) :
    (s.cursor names tokens).next = (result, t.cursor names tokens) := by
  have houtcome : outcomeOf (operand names (roomAt s.depth) (endOf tokens))
      (tokens.drop s.passed) (.level Operator.ladder) = _ := h.outcome_eq hs
  obtain ⟨hresult, hrest⟩ := Prod.mk.inj houtcome
  have hdepth := (h.moves hs).depth_eq
  show (Cursor.mk names s.depth (endOf tokens) (tokens.drop s.passed)).next =
    (result, ⟨names, t.depth, endOf tokens, tokens.drop t.passed⟩)
  rw [hdepth, ← hresult, ← hrest]
  rfl

theorem atEnd_cursor_iff : (s.cursor names tokens).atEnd = true ↔ tokens.length ≤ s.passed := by
  rw [Cursor.atEnd, ReaderState.cursor, List.isEmpty_iff, List.drop_eq_nil_iff]

/-! ### Reading again -/

/-- However often a reader reads, it stays within the tokens and the brackets. -/
theorem ReadsOn.moves (h : ReadsOn names tokens s results t) (hs : s.passed ≤ tokens.length) :
    Runs.Moves tokens s t := by
  induction h with
  | nil s => exact ⟨rfl, Nat.le_refl _, hs⟩
  | cons hfirst hmore ih =>
    have hmoves := Runs.moves hfirst hs
    exact hmoves.trans (ih hmoves.le_length)

/-- Reading up to the end takes no more calls than there are tokens left. -/
theorem ReadsToEnd.length_le (h : ReadsToEnd names tokens s results t)
    (hs : s.passed ≤ tokens.length) :
    results.length ≤ tokens.length - s.passed ∧ t = ⟨tokens.length, s.depth⟩ := by
  induction h with
  | done hend =>
    rename_i s
    have hpassed : s.passed = tokens.length := Nat.le_antisymm hs hend
    exact ⟨Nat.zero_le _, by rw [← hpassed]⟩
  | next hleft hfirst hmore ih =>
    have hrecovers := hfirst.recovers hs
    obtain ⟨hlength, hlast⟩ := ih hrecovers.le_length
    have hpasses := hrecovers.passes hleft
    refine ⟨?_, by rw [hlast, hrecovers.depth_eq]⟩
    rw [List.length_cons]
    omega

/-- Reading comes to the end. -/
theorem exists_readsToEnd (names : Text → Bool) (hs : s.passed ≤ tokens.length) :
    ∃ results t, ReadsToEnd names tokens s results t := by
  generalize hleft : tokens.length - s.passed = left
  induction left using Nat.strongRecOn generalizing s with
  | ind left ih =>
    by_cases hend : tokens.length ≤ s.passed
    · exact ⟨[], s, .done hend⟩
    · have hlt : s.passed < tokens.length := Nat.lt_of_not_le hend
      obtain ⟨result, t, hfirst⟩ := exists_run names (.level Operator.ladder) hs
      have hrecovers := ReadsNext.recovers hfirst hs
      have hpasses := hrecovers.passes hlt
      obtain ⟨results, u, hmore⟩ :=
        ih (tokens.length - t.passed) (by omega) hrecovers.le_length rfl
      exact ⟨result :: results, u, .next hlt hfirst hmore⟩

/-- A cursor that reads all gives what reading up to the end does. -/
theorem ReadsToEnd.readAll_eq (h : ReadsToEnd names tokens s results t)
    (hs : s.passed < tokens.length) :
    (s.cursor names tokens).readAll.map Prod.fst = results := by
  induction h with
  | done hend => exact absurd hs (Nat.not_lt_of_le hend)
  | next hleft hfirst hmore ih =>
    rename_i s t u result results
    rw [Cursor.readAll, hfirst.next_eq (Nat.le_of_lt hs)]
    by_cases hend : tokens.length ≤ t.passed
    · rw [if_pos (atEnd_cursor_iff.2 hend)]
      cases hmore with
      | done => rfl
      | next hleft => exact absurd hend (Nat.not_le_of_lt hleft)
    · rw [if_neg (mt atEnd_cursor_iff.1 hend), List.map_cons, ih (Nat.lt_of_not_le hend)]

/-- **Recovery.** A reader that has read any number of times, with results or faults, stands inside
the brackets it started in, and can read again: there is one run, it is what the cursor does, it
passes a token and stays within the tokens, or fails at the end and stays there. Reading until all
tokens have been passed comes to its end, and takes no more calls than there are tokens. -/
theorem reading_recovers (names : Text → Bool) (tokens : List PlacedToken) (depth : Nat) :
    (∀ results s, ReadsOn names tokens ⟨0, depth⟩ results s →
      s.depth = depth ∧ s.passed ≤ tokens.length ∧
      ∃ result t, ReadsNext names tokens s result t ∧ Recovers tokens s result t ∧
        (s.cursor names tokens).next = (result, t.cursor names tokens) ∧
        ∀ result' t', ReadsNext names tokens s result' t' → result' = result ∧ t' = t) ∧
    (∃ results s, ReadsToEnd names tokens ⟨0, depth⟩ results s) ∧
    ∀ results s, ReadsToEnd names tokens ⟨0, depth⟩ results s →
      results.length ≤ tokens.length ∧ s = ⟨tokens.length, depth⟩ ∧
      (tokens ≠ [] → (Cursor.start names depth tokens).readAll.map Prod.fst = results) := by
  have hstart : (ReaderState.mk 0 depth).passed ≤ tokens.length := Nat.zero_le _
  refine ⟨?_, exists_readsToEnd names hstart, ?_⟩
  · intro results s hreads
    have hmoves := hreads.moves hstart
    obtain ⟨result, t, hnext⟩ := exists_run names (.level Operator.ladder) hmoves.le_length
    refine ⟨hmoves.depth_eq, hmoves.le_length, result, t, hnext,
      ReadsNext.recovers hnext hmoves.le_length, ReadsNext.next_eq hnext hmoves.le_length, ?_⟩
    intro result' t' hnext'
    exact Runs.unique hnext hnext' hmoves.le_length
  · intro results s hreads
    obtain ⟨hlength, hlast⟩ := hreads.length_le hstart
    refine ⟨hlength, hlast, ?_⟩
    intro htokens
    exact hreads.readAll_eq (List.length_pos_iff.2 htokens)

/-- A fault inside two brackets, which are both left. The reader goes on behind the token at which
it stopped. -/
theorem reading_recovers_in_brackets :
    ∃ tokens : List PlacedToken, tokens = [⟨.openBracket, ⟨0, 1⟩⟩, ⟨.openBracket, ⟨1, 2⟩⟩,
        ⟨.closeBracket, ⟨2, 3⟩⟩, ⟨.string ['a'], ⟨3, 6⟩⟩] ∧
      ReadsOn (fun _ => false) tokens ⟨0, 5⟩ [.error ⟨.strayClose, ⟨2, 3⟩⟩] ⟨3, 5⟩ ∧
      ∃ result t, ReadsNext (fun _ => false) tokens ⟨3, 5⟩ result t ∧
        t.depth = 5 ∧ 3 < t.passed ∧ t.passed ≤ 4 := by
  obtain ⟨tokens, htokens⟩ : ∃ tokens : List PlacedToken, tokens = [⟨.openBracket, ⟨0, 1⟩⟩,
    ⟨.openBracket, ⟨1, 2⟩⟩, ⟨.closeBracket, ⟨2, 3⟩⟩, ⟨.string ['a'], ⟨3, 6⟩⟩] := ⟨_, rfl⟩
  have hfirst : tokens[0]? = some ⟨.openBracket, ⟨0, 1⟩⟩ := by rw [htokens]; rfl
  have hsecond : tokens[1]? = some ⟨.openBracket, ⟨1, 2⟩⟩ := by rw [htokens]; rfl
  have hthird : tokens[2]? = some ⟨.closeBracket, ⟨2, 3⟩⟩ := by rw [htokens]; rfl
  have hlength : tokens.length = 4 := by rw [htokens]; rfl
  have hclose : Runs (fun _ => false) tokens .operand ⟨2, 7⟩
      (.error ⟨.strayClose, ⟨2, 3⟩⟩) ⟨3, 7⟩ :=
    .closeBracket hthird
  have hinner : Runs (fun _ => false) tokens .operand ⟨1, 6⟩
      (.error ⟨.strayClose, ⟨2, 3⟩⟩) ⟨3, 6⟩ :=
    .groupFault (s := ⟨1, 6⟩) hsecond (by decide) (hclose.level_of_fault _)
  have houter : Runs (fun _ => false) tokens .operand ⟨0, 5⟩
      (.error ⟨.strayClose, ⟨2, 3⟩⟩) ⟨3, 5⟩ :=
    .groupFault (s := ⟨0, 5⟩) hfirst (by decide) (hinner.level_of_fault _)
  have hreads := ReadsOn.cons (houter.level_of_fault Operator.ladder) (.nil _)
  obtain ⟨hrecovers, -⟩ := reading_recovers (fun _ => false) tokens 5
  obtain ⟨-, -, result, t, hnext, hready, -⟩ := hrecovers _ _ hreads
  have hpassed := hready.passes (by rw [hlength]; decide)
  exact ⟨tokens, htokens, hreads, result, t, hnext, hready.depth_eq, hpassed,
    hlength ▸ hready.le_length⟩

end Assertions
