import Assertions.Proofs.BracketCounts
import Assertions.Proofs.FoundBrackets

/-!
# Splitting and joining argument lists

Splitting an argument list and joining the pieces with commas undo each other. Joining undoes
splitting for every list that is not blank. Splitting undoes joining for pieces that are told by
counting their quotes and brackets (`IsPiece`), since these are the balanced texts in which no comma
stands by itself.

The cuts are made without looking whether the brackets of the list are balanced. For the arguments
of a call they are, as they were found by a search for the bracket that closes them
(`Token.balanced_of_read`).
-/

namespace Assertions

open Nesting

/-- Whether a text can be one piece of an argument list: its literals are closed, outside them as
many brackets close as open and nowhere more, and where a comma stands outside them a bracket is
open. -/
structure IsPiece (piece : Text) : Prop where
  quotes : piece.count Symbol.quote % 2 = 0
  closed : countOutside Symbol.closeBracket false piece =
    countOutside Symbol.openBracket false piece
  covered : ∀ front, front <+: piece →
    countOutside Symbol.closeBracket false front ≤ countOutside Symbol.openBracket false front
  comma : ∀ front back, piece = front ++ Symbol.comma :: back →
    front.count Symbol.quote % 2 = 0 →
      countOutside Symbol.closeBracket false front < countOutside Symbol.openBracket false front

/-- A piece is a balanced text in which no comma stands by itself. -/
theorem isPiece_iff {piece : Text} : IsPiece piece ↔ Balanced piece ∧ Uncut piece := by
  constructor
  · intro h
    have hbalanced : Balanced piece := balanced_iff.2 ⟨h.quotes, h.closed, h.covered⟩
    refine ⟨hbalanced, fun depth => shields_iff.2 ?_⟩
    rintro front back rfl hquoted
    have hclosed := (quoted_after ⟨depth, false⟩ front).symm.trans hquoted
    have hcomma := h.comma front back rfl (quotedThrough_eq_false_iff.1 hclosed)
    have hdepth := depth_after (shields_append.1 (hbalanced depth).2).1
    dsimp only at hdepth
    omega
  · rintro ⟨hbalanced, huncut⟩
    obtain ⟨hquotes, hclosed, hcovered⟩ := balanced_iff.1 hbalanced
    refine ⟨hquotes, hclosed, hcovered, ?_⟩
    rintro front back rfl hfront
    have hquoted := (quoted_after ⟨0, false⟩ front).trans (quotedThrough_eq_false_iff.2 hfront)
    have hpos := shields_iff.1 (huncut 0) front back rfl hquoted
    have hdepth := depth_after (shields_append.1 (hbalanced 0).2).1
    dsimp only at hdepth
    omega

/-! ### Places of pieces -/

/-- Behind a piece and a comma the next one starts. -/
theorem start_next_placed {list : List Text} {start k at' next : Nat} {piece other : Text}
    (h : (placed start list)[k]? = some (at', piece))
    (hnext : (placed start list)[k + 1]? = some (next, other)) :
    next = at' + Text.size piece + 1 := by
  induction list generalizing start k with
  | nil => cases h
  | cons first others ih =>
    cases k with
    | zero =>
      cases others with
      | nil => cases hnext
      | cons second rest =>
        cases h
        cases hnext
        rfl
    | succ k => exact ih h hnext

/-! ### The arguments of calls -/

/-- The tokens that are read, one by one or up to the end of a text. -/
inductive IsRead (names : Text → Bool) (token : Token) : Prop
  | one {offset : Nat} {text : Text} {lexeme : Lexeme}
    (hread : Token.read names offset text = .ok lexeme) (htoken : lexeme.token = token)
  | all {offset : Nat} {text : Text} {tokens : List PlacedToken} {span : Span}
    (hread : tokenize names offset text = .ok tokens) (hmem : ⟨token, span⟩ ∈ tokens)

theorem IsRead.balanced_args {names : Text → Bool} {name args : Text} {argsAt : Nat}
    (h : IsRead names (.call name args argsAt)) : Balanced args := by
  cases h with
  | one hread htoken => exact Token.balanced_of_read hread htoken
  | all hread hmem =>
    exact (tokenizeWithin_eq_ok_iff.1 hread).1.hasBalancedArgs _ hmem _ _ _ rfl

/-- **Splitting and joining.** The pieces of a list that is not blank, joined with commas, are the
list, and each stands where it is said to, one byte behind the one before it. Pieces that are joined
to a list that is not blank are what that list is split into. In the arguments of a call every
bracket that closes outside literals closes one that is open, and at the end no bracket and no
literal is open. -/
theorem splitArguments_exact :
    (∀ text : Text, text.all Text.isBlank = false →
      joinCommas ((splitArguments text).map Prod.snd) = text ∧
      (∀ at' piece, (at', piece) ∈ splitArguments text →
        text.slice? at' (at' + Text.size piece) = some piece) ∧
      ∀ (k at' next : Nat) (piece other : Text), (splitArguments text)[k]? = some (at', piece) →
        (splitArguments text)[k + 1]? = some (next, other) →
          next = at' + Text.size piece + 1) ∧
    (∀ list : List Text, list ≠ [] → (∀ piece ∈ list, IsPiece piece) →
      (joinCommas list).all Text.isBlank = false →
        splitArguments (joinCommas list) = placed 0 list) ∧
    (∀ (names : Text → Bool) (name args : Text) (argsAt : Nat),
      IsRead names (.call name args argsAt) →
        (∀ front back, args = front ++ Symbol.closeBracket :: back →
          (outermost.after front).quoted = false → 0 < (outermost.after front).depth) ∧
        outermost.after args = outermost) := by
  refine ⟨?_, ?_, ?_⟩
  · intro text hblank
    have hjoin := joinCommas_pieces .outermost text
    rw [splitArguments_of_not_blank hblank]
    refine ⟨by rw [map_snd_placed, hjoin], ?_, fun k at' next piece other => start_next_placed⟩
    intro at' piece hmem
    obtain ⟨before, after, htext, rfl, -⟩ := exists_of_mem_placed hmem
    rw [← hjoin, htext, Nat.zero_add]
    exact Text.slice?_append before piece after
  · intro list hne hpieces hblank
    exact splitArguments_joinCommas hne hblank
      (fun piece hpiece => (isPiece_iff.1 (hpieces piece hpiece)).1)
      fun piece hpiece => (isPiece_iff.1 (hpieces piece hpiece)).2
  · intro names name args argsAt hread
    obtain ⟨hafter, hshields⟩ := hread.balanced_args 0
    exact ⟨shields_iff.1 hshields, hafter⟩

/-- A call with two arguments and a literal, both with a comma in them. -/
theorem splitArguments_exact_call :
    splitArguments (joinCommas [['f', '(', '1', ',', '2', ')'], ['\x27', ',', '\x27']]) =
        [(0, ['f', '(', '1', ',', '2', ')']), (7, ['\x27', ',', '\x27'])] ∧
      Text.slice? ['f', '(', '1', ',', '2', ')', ',', '\x27', ',', '\x27'] 7 10 =
        some ['\x27', ',', '\x27'] ∧
      outermost.after ['1', ',', '2'] = outermost := by
  obtain ⟨hsplit, hjoin, hcalls⟩ := splitArguments_exact
  have hdigit : ∀ c : Char, c.isDigit = true → SelfContained [c] := fun c hc =>
    .of_marks (List.forall_mem_singleton.2 (isMark_of_isDigit hc))
  have hdigits : ∀ digits ∈ [['1'], ['2']], SelfContained digits :=
    List.forall_mem_cons.2 ⟨hdigit '1' rfl, List.forall_mem_singleton.2 (hdigit '2' rfl)⟩
  have hname : SelfContained ['f'] := .of_isIdentifier rfl
  have hcall : SelfContained ['f', '(', '1', ',', '2', ')'] := hname.append (.bracketed hdigits)
  have hcomma : Symbol.quote ∉ [','] := by decide
  have hliteral : SelfContained ['\x27', ',', '\x27'] := .literal hcomma
  have hpieces : ∀ piece ∈ [['f', '(', '1', ',', '2', ')'], ['\x27', ',', '\x27']],
      IsPiece piece :=
    List.forall_mem_cons.2 ⟨isPiece_iff.2 ⟨hcall.balanced, hcall.uncut⟩,
      List.forall_mem_singleton.2 (isPiece_iff.2 ⟨hliteral.balanced, hliteral.uncut⟩)⟩
  have hfound := hjoin _ (List.cons_ne_nil _ _) hpieces rfl
  refine ⟨hfound, (hsplit _ rfl).2.1 7 ['\x27', ',', '\x27'] ?_, ?_⟩
  · show _ ∈ splitArguments
      (joinCommas [['f', '(', '1', ',', '2', ')'], ['\x27', ',', '\x27']])
    rw [hfound]
    exact List.mem_cons_of_mem _ List.mem_cons_self
  · have hread : Token.read (· == ['f']) 0 ['f', '(', '1', ',', '2', ')'] =
        .ok ⟨.call ['f'] ['1', ',', '2'] 2, ['f', '(', '1', ',', '2', ')'], []⟩ := rfl
    exact (hcalls (· == ['f']) ['f'] ['1', ',', '2'] 2 (.one hread rfl)).2

end Assertions
