import Assertions.Proofs.BracketCounts
import Assertions.Proofs.FoundBrackets
import Mathlib.Order.Bounds.Basic

/-!
# The bracket that closes another one

The search for a closing bracket goes from character to character and keeps a depth. Where it ends
can be told by counting quotes and brackets (`ClosesAt`): it is the first place at which no literal
is open and as many brackets close as open (`closingBracket?_eq_some_iff`).

In a text that is cut into tokens it can be told by counting the tokens that are brackets
(`closingToken?`). A call is one token, and its brackets are not counted. Since its arguments are
balanced, the search goes past them as if they were not there.
-/

namespace Assertions

open Nesting

/-- Whether a closing bracket outside literals stands at a position, and from the opening bracket at
another position up to it as many brackets open as close. Literals are counted from the opening
bracket on. -/
def ClosesAt (text : Text) (start close : Nat) : Prop :=
  ∃ before between after,
    text = before ++ Symbol.openBracket :: between ++ Symbol.closeBracket :: after ∧
    Text.size before = start ∧ start + 1 + Text.size between = close ∧
    between.count Symbol.quote % 2 = 0 ∧
    countOutside Symbol.openBracket false
        (Symbol.openBracket :: between ++ [Symbol.closeBracket]) =
      countOutside Symbol.closeBracket false
        (Symbol.openBracket :: between ++ [Symbol.closeBracket])

variable {text before rest : Text} {start close : Nat}

/-! ### Counting up to the closing bracket -/

/-- The two brackets add one to each side of the count. -/
theorem countOutside_bracketed {between : Text} (h : between.count Symbol.quote % 2 = 0) :
    countOutside Symbol.openBracket false
        (Symbol.openBracket :: between ++ [Symbol.closeBracket]) =
      1 + countOutside Symbol.openBracket false between ∧
    countOutside Symbol.closeBracket false
        (Symbol.openBracket :: between ++ [Symbol.closeBracket]) =
      countOutside Symbol.closeBracket false between + 1 := by
  have hopen : quotedThrough false (Symbol.openBracket :: between) = false :=
    quotedThrough_eq_false_iff.2 (by rwa [List.count_cons_of_ne (by decide)])
  have hno : countOutside Symbol.closeBracket false (Symbol.openBracket :: between) =
      countOutside Symbol.closeBracket false between := by
    rw [countOutside, if_neg (by decide), Nat.zero_add]
    rfl
  rw [countOutside_append_of_closed _ hopen, countOutside_append_of_closed _ hopen, hno]
  exact ⟨rfl, rfl⟩

theorem closesAt_append_iff :
    ClosesAt (before ++ Symbol.openBracket :: rest) (Text.size before) close ↔
      ∃ between after, rest = between ++ Symbol.closeBracket :: after ∧
        Text.size before + 1 + Text.size between = close ∧
        between.count Symbol.quote % 2 = 0 ∧
        countOutside Symbol.openBracket false between =
          countOutside Symbol.closeBracket false between := by
  constructor
  · rintro ⟨front, between, after, htext, hfront, hclose, hquotes, hcounts⟩
    rw [List.append_assoc] at htext
    obtain ⟨rfl, hrest⟩ := Text.append_inj_of_size htext hfront.symm
    obtain ⟨hopening, hclosing⟩ := countOutside_bracketed hquotes
    exact ⟨between, after, (List.cons.inj hrest).2, hclose, hquotes, by omega⟩
  · rintro ⟨between, after, rfl, hclose, hquotes, hcounts⟩
    obtain ⟨hopening, hclosing⟩ := countOutside_bracketed hquotes
    exact ⟨before, between, after, by simp, rfl, hclose, hquotes, by omega⟩

/-- A bracket behind as many that close as open closes too much. -/
theorem not_shields_of_counts {between : Text} (hquotes : between.count Symbol.quote % 2 = 0)
    (hcounts : countOutside Symbol.openBracket false between =
      countOutside Symbol.closeBracket false between)
    (h : between ++ [Symbol.closeBracket] <+: text) :
    ¬Shields Symbol.closeBracket outermost text := by
  intro hshields
  have hle := shields_closeBracket_iff.1 hshields _ h
  have hclosed := quotedThrough_eq_false_iff.2 hquotes
  simp only [outermost, Nat.zero_add, countOutside_append_of_closed _ hclosed] at hle
  have hclosing : countOutside Symbol.closeBracket false [Symbol.closeBracket] = 1 := rfl
  have hopening : countOutside Symbol.openBracket false [Symbol.closeBracket] = 0 := rfl
  omega

/-! ### The search -/

/-- What is closed stands between the two brackets. -/
theorem exists_of_closingBracket? (h : closingBracket? text start = some close) :
    ∃ before inside after,
      text = before ++ Symbol.openBracket :: (inside ++ Symbol.closeBracket :: after) ∧
      Text.size before = start ∧ start + 1 + Text.size inside = close ∧
      enclosed? (inside ++ Symbol.closeBracket :: after) = some (inside, after) := by
  unfold closingBracket? at h
  split at h
  · rename_i c rest hdrop
    obtain ⟨before, rfl, hbefore⟩ := Text.exists_of_dropBytes? hdrop
    split at h
    · rename_i hopen
      obtain rfl := beq_iff_eq.1 hopen
      obtain ⟨⟨inside, after⟩, hclose, hsize⟩ := Option.map_eq_some_iff.1 h
      obtain rfl := eq_of_enclosed? hclose
      exact ⟨before, inside, after, rfl, hbefore, hsize, hclose⟩
    · cases h
  · cases h

/-- **The first place.** Where the search ends the bracket is closed, and nowhere before. -/
theorem isLeast_of_closingBracket? (h : closingBracket? text start = some close) :
    IsLeast {c | ClosesAt text start c} close := by
  obtain ⟨before, inside, after, rfl, rfl, rfl, hclose⟩ := exists_of_closingBracket? h
  have hbalanced := balanced_of_enclosed? hclose
  obtain ⟨hquotes, hcounts, -⟩ := balanced_iff.1 hbalanced
  constructor
  · exact closesAt_append_iff.2 ⟨inside, after, rfl, rfl, hquotes, hcounts.symm⟩
  · intro c hc
    obtain ⟨between, later, hrest, rfl, hquotes', hcounts'⟩ := closesAt_append_iff.1 hc
    by_contra hlt
    have hbetween : between ++ [Symbol.closeBracket] <+: inside ++ Symbol.closeBracket :: after :=
      ⟨later, by rw [hrest, List.append_assoc, List.singleton_append]⟩
    have hone : Text.size [Symbol.closeBracket] = 1 := rfl
    have hbefore : between ++ [Symbol.closeBracket] <+: inside := by
      refine Text.isPrefix_of_size_le hbetween (List.prefix_append _ _) ?_
      rw [Text.size_append, hone]
      omega
    exact not_shields_of_counts hquotes' hcounts' hbefore (hbalanced 0).2

/-- The search ends if there is a place at which the bracket is closed. -/
theorem closingBracket?_ne_none (h : ClosesAt text start close) :
    closingBracket? text start ≠ none := by
  obtain ⟨before, between, after, rfl, rfl, rfl, hquotes, hcounts⟩ := h
  obtain ⟨hopening, hclosing⟩ := countOutside_bracketed hquotes
  rw [List.append_assoc, List.cons_append, closingBracket?_append]
  intro hnone
  refine not_shields_of_counts hquotes (by omega) ⟨after, ?_⟩
    (shields_of_enclosed?_go_eq_none (Option.map_eq_none_iff.1 hnone))
  simp

theorem closingBracket?_eq_some_iff :
    closingBracket? text start = some close ↔ IsLeast {c | ClosesAt text start c} close := by
  constructor
  · exact isLeast_of_closingBracket?
  · intro h
    obtain ⟨found, hfound⟩ := Option.ne_none_iff_exists'.1 (closingBracket?_ne_none h.1)
    rw [hfound, (isLeast_of_closingBracket? hfound).unique h]

theorem closingBracket?_eq_none_iff_not_closesAt :
    closingBracket? text start = none ↔ ∀ close, ¬ClosesAt text start close := by
  constructor
  · exact fun hnone close hclose => closingBracket?_ne_none hclose hnone
  · intro h
    cases hfound : closingBracket? text start with
    | none => rfl
    | some close => exact absurd (isLeast_of_closingBracket? hfound).1 (h close)

/-- Where a literal stays open to the end, no bracket is closed behind its quote. -/
theorem lt_of_closesAt_openLiteral {between : Text}
    (hquotes : between.count Symbol.quote % 2 = 0) (hrest : Symbol.quote ∉ rest)
    (h : ClosesAt (before ++ Symbol.openBracket :: (between ++ Symbol.quote :: rest))
      (Text.size before) close) :
    close < Text.size before + 1 + Text.size between := by
  obtain ⟨inside, after, htext, rfl, hinside, -⟩ := closesAt_append_iff.1 h
  by_contra hle
  obtain ⟨more, rfl⟩ : between <+: inside :=
    Text.isPrefix_of_size_le ⟨_, rfl⟩ ⟨_, htext.symm⟩ (by omega)
  rw [List.append_assoc] at htext
  cases more with
  | nil => exact absurd (List.cons.inj (List.append_cancel_left htext)).1 (by decide)
  | cons c more =>
    -- The quote is the last one before the bracket, so the quotes are odd in number.
    obtain ⟨rfl, rfl⟩ := List.cons.inj (List.append_cancel_left htext)
    have hnone : more.count Symbol.quote = 0 :=
      List.count_eq_zero.2 fun hmem => hrest (List.mem_append_left _ hmem)
    rw [List.count_append, List.count_cons_self, hnone] at hinside
    omega

/-- Up to where the search ends no bracket closes too much. -/
theorem shields_of_passed {passed : Text}
    (h : ∀ close, closingBracket? (before ++ Symbol.openBracket :: (passed ++ rest))
      (Text.size before) = some close → Text.size before + 1 + Text.size passed ≤ close) :
    Shields Symbol.closeBracket outermost passed := by
  rw [closingBracket?_append] at h
  cases hclose : enclosed? (passed ++ rest) with
  | none => exact (shields_append.1 (shields_of_enclosed?_go_eq_none hclose)).1
  | some found =>
    obtain ⟨inside, after⟩ := found
    rw [hclose] at h
    have hle : Text.size before + 1 + Text.size passed ≤
        Text.size before + 1 + Text.size inside := h _ rfl
    obtain ⟨more, rfl⟩ : passed <+: inside :=
      Text.isPrefix_of_size_le ⟨_, rfl⟩ ⟨_, (eq_of_enclosed? hclose).symm⟩ (by omega)
    exact (shields_append.1 (shields_of_enclosed?_go hclose)).1

/-- **The depth.** As long as the search goes on, more brackets have opened than closed, and the
depth inside the first bracket is one less than the difference. -/
theorem depth_of_passed {passed : Text}
    (h : ∀ close, closingBracket? (before ++ Symbol.openBracket :: (passed ++ rest))
      (Text.size before) = some close → Text.size before + 1 + Text.size passed ≤ close) :
    countOutside Symbol.closeBracket false passed <
        countOutside Symbol.openBracket false (Symbol.openBracket :: passed) ∧
      (outermost.after passed).depth + 1 =
        countOutside Symbol.openBracket false (Symbol.openBracket :: passed) -
          countOutside Symbol.closeBracket false passed := by
  have hdepth := depth_after (shields_of_passed h)
  have hfirst : countOutside Symbol.openBracket false (Symbol.openBracket :: passed) =
      1 + countOutside Symbol.openBracket false passed := rfl
  simp only [outermost, Nat.zero_add] at hdepth ⊢
  omega

/-! ### Counting tokens -/

/-- The closing bracket that closes an opening one in front of the tokens, where `depth` more are
open. Only tokens that are brackets are counted. -/
def closingToken? : (depth : Nat) → List PlacedToken → Option Span
  | _, [] => none
  | depth, ⟨.openBracket, _⟩ :: others => closingToken? (depth + 1) others
  | 0, ⟨.closeBracket, span⟩ :: _ => some span
  | depth + 1, ⟨.closeBracket, _⟩ :: others => closingToken? depth others
  | depth, _ :: others => closingToken? depth others

variable {names : Text → Bool} {offset : Nat} {lexeme : Lexeme} {tokens : List PlacedToken}

/-- A token that is no bracket closes what it opens, if it is no call or its arguments do. -/
theorem IsLexeme.balanced {token : Token} (h : IsLexeme names offset token text)
    (hargs : ∀ name args argsAt, token = .call name args argsAt → Balanced args)
    (hopen : token ≠ .openBracket) (hclose : token ≠ .closeBracket) : Balanced text := by
  cases h with
  | ref side hpath =>
    exact (side.selfContained_symbol.append (.of_marks fun c hc =>
      isMark_of_isPathChar (Path.isPathChar_of_mem_toText hpath c hc))).balanced
  | string hquote => exact balanced_literal hquote
  | number hdigits => exact balanced_of_passive fun c hc => (hdigits.isMark c hc).isPassive
  | statement hname => exact (SelfContained.of_isIdentifier hname).balanced
  | call hname =>
    have hcall := (SelfContained.of_isIdentifier hname).balanced.append (hargs _ _ _ rfl).bracketed
    rwa [← List.append_assoc] at hcall
  | operator op => exact op.selfContained_spelling.balanced
  | openBracket => exact absurd rfl hopen
  | closeBracket => exact absurd rfl hclose

/-- The search goes past a text and finds what it does behind it. -/
theorem enclosed?_position_append {n : Nesting} (h : Shields Symbol.closeBracket n text)
    (offset : Nat) (rest : Text) :
    (enclosed?.go n (text ++ rest)).map (fun found => offset + Text.size found.1) =
      (enclosed?.go (n.after text) rest).map
        fun found => offset + Text.size text + Text.size found.1 := by
  rw [enclosed?_go_append h, Option.map_map]
  refine congrArg (Option.map · _) (funext fun found => ?_)
  simp [Nat.add_assoc]

/-- **Characters and tokens.** In a text that is cut into tokens the search among the characters
ends where counting the tokens does. -/
theorem Reads.enclosed?_position_eq (h : Reads names offset text tokens rest) (hrest : rest = [])
    (depth : Nat) :
    (enclosed?.go ⟨depth, false⟩ text).map (fun found => offset + Text.size found.1) =
      (closingToken? depth tokens).map (·.start) := by
  induction h generalizing depth with
  | done offset text =>
    subst hrest
    rfl
  | @next offset text rest lexeme tokens hread _ ih =>
    obtain ⟨htext, hlexeme⟩ := Token.isLexeme_read hread
    have hargs : ∀ name args argsAt, lexeme.token = .call name args argsAt → Balanced args :=
      fun name args argsAt => Token.balanced_of_read hread
    have hnext := ih hrest
    generalize lexeme.token = token at hlexeme hargs ⊢
    generalize lexeme.text = spelled at htext hlexeme hnext ⊢
    by_cases hopen : token = .openBracket
    · subst hopen
      cases hlexeme
      have hshields : Shields Symbol.closeBracket ⟨depth, false⟩ [Symbol.openBracket] :=
        ⟨fun heq => absurd heq.1 (by decide), trivial⟩
      rw [htext, enclosed?_position_append hshields]
      exact hnext (depth + 1)
    · by_cases hclose : token = .closeBracket
      · subst hclose
        cases hlexeme
        cases depth with
        | zero =>
          rw [htext]
          rfl
        | succ depth =>
          have hshields : Shields Symbol.closeBracket ⟨depth + 1, false⟩ [Symbol.closeBracket] :=
            ⟨by simp [isOutermost], trivial⟩
          rw [htext, enclosed?_position_append hshields]
          exact hnext depth
      · have hbalanced := hlexeme.balanced hargs hopen hclose
        rw [htext, enclosed?_position_append (hbalanced depth).2, (hbalanced depth).1, hnext depth]
        cases token with
        | openBracket => exact absurd rfl hopen
        | closeBracket => exact absurd rfl hclose
        | _ => cases depth <;> rfl

/-- An opening bracket among the tokens stands in the text, and behind it the tokens go on. -/
theorem Reads.exists_openBracket {front behind : List PlacedToken} {span : Span}
    (h : Reads names offset text (front ++ ⟨.openBracket, span⟩ :: behind) rest) :
    ∃ before later, text = before ++ Symbol.openBracket :: later ∧
      offset + Text.size before = span.start ∧
      Reads names (span.start + 1) later behind rest := by
  induction front generalizing offset text with
  | nil =>
    obtain ⟨⟨token, spelled, later⟩, hread, hplaced, hrest⟩ := h.of_cons
    obtain ⟨htext, hlexeme⟩ := Token.isLexeme_read hread
    cases hplaced
    cases hlexeme
    exact ⟨[], later, htext, rfl, hrest⟩
  | cons first others ih =>
    obtain ⟨lexeme, hread, -, hrest⟩ := h.of_cons
    obtain ⟨before, later, hlater, hstart, hreads⟩ := ih hrest
    refine ⟨lexeme.text ++ before, later, ?_, ?_, hreads⟩
    · rw [(Token.isLexeme_read hread).1, hlater, List.append_assoc]
    · rw [Text.size_append, ← hstart, Nat.add_assoc]

/-- The bracket that closes an opening one is found among the tokens behind it. -/
theorem closingBracket?_of_tokenize {front behind : List PlacedToken} {span : Span}
    (h : tokenize names 0 text = .ok (front ++ ⟨.openBracket, span⟩ :: behind)) :
    closingBracket? text span.start = (closingToken? 0 behind).map (·.start) := by
  obtain ⟨before, later, rfl, hstart, hreads⟩ := (tokenizeWithin_eq_ok_iff.1 h).1.exists_openBracket
  rw [Nat.zero_add] at hstart
  rw [← hreads.enclosed?_position_eq rfl 0, ← hstart, closingBracket?_append]
  rfl

/-- **Closing brackets.** The search for a closing bracket finds the first place where, counted from
the opening one, no literal is open and as many brackets close as open. It finds none if there is no
such place, as when a literal stays open in front of it. Up to there more brackets have opened than
closed, so the depth never falls below zero. In a text that is cut into tokens the bracket found is
the one that counting the tokens gives. -/
theorem closingBracket?_exact (text : Text) (start : Nat) :
    (∀ close, closingBracket? text start = some close ↔
      IsLeast {c | ClosesAt text start c} close) ∧
    (closingBracket? text start = none ↔ ∀ close, ¬ClosesAt text start close) ∧
    (∀ before between rest,
      text = before ++ Symbol.openBracket :: (between ++ Symbol.quote :: rest) →
      Text.size before = start → between.count Symbol.quote % 2 = 0 → Symbol.quote ∉ rest →
      (∀ close, ClosesAt text start close → start + 1 + Text.size between ≤ close) →
      closingBracket? text start = none) ∧
    (∀ before passed rest, text = before ++ Symbol.openBracket :: (passed ++ rest) →
      Text.size before = start →
      (∀ close, closingBracket? text start = some close →
        start + 1 + Text.size passed ≤ close) →
      countOutside Symbol.closeBracket false passed <
          countOutside Symbol.openBracket false (Symbol.openBracket :: passed) ∧
        (outermost.after passed).depth + 1 =
          countOutside Symbol.openBracket false (Symbol.openBracket :: passed) -
            countOutside Symbol.closeBracket false passed) ∧
    (∀ (names : Text → Bool) (front behind : List PlacedToken) (span : Span),
      tokenize names 0 text = .ok (front ++ ⟨.openBracket, span⟩ :: behind) →
      closingBracket? text span.start = (closingToken? 0 behind).map (·.start)) := by
  refine ⟨fun close => closingBracket?_eq_some_iff, closingBracket?_eq_none_iff_not_closesAt,
    ?_, ?_, fun names front behind span => closingBracket?_of_tokenize⟩
  · rintro before between rest rfl rfl hquotes hrest hbetween
    refine closingBracket?_eq_none_iff_not_closesAt.2 fun close hclose => ?_
    have hlt := lt_of_closesAt_openLiteral hquotes hrest hclose
    exact absurd (hbetween close hclose) (by omega)
  · rintro before passed rest rfl rfl hpassed
    exact depth_of_passed hpassed

/-- Brackets around a call and around a literal that holds a bracket, and a literal that stays
open. -/
theorem closingBracket?_exact_literal :
    (closingBracket? ['(', 'f', '(', '1', ')', '+', '\x27', ')', '\x27', ')'] 0 = some 9 ∧
      ClosesAt ['(', 'f', '(', '1', ')', '+', '\x27', ')', '\x27', ')'] 0 9) ∧
    closingBracket? ['(', '\x27', ')'] 0 = none := by
  obtain ⟨hleast, -, -, -, htokens⟩ :=
    closingBracket?_exact ['(', 'f', '(', '1', ')', '+', '\x27', ')', '\x27', ')'] 0
  have hfound := htokens (· == ['f']) []
    [⟨.call ['f'] ['1'] 3, ⟨1, 5⟩⟩, ⟨.operator .add, ⟨5, 6⟩⟩, ⟨.string [')'], ⟨6, 9⟩⟩,
      ⟨.closeBracket, ⟨9, 10⟩⟩] ⟨0, 1⟩ rfl
  refine ⟨⟨hfound, ((hleast 9).1 hfound).1⟩, ?_⟩
  obtain ⟨-, -, hopen, -⟩ := closingBracket?_exact ['(', '\x27', ')'] 0
  refine hopen [] [] [')'] rfl rfl rfl (by decide) ?_
  rintro close ⟨before, between, after, -, -, hclose, -⟩
  have hempty : Text.size [] = 0 := rfl
  omega

end Assertions
