import Assertions.Proofs.Origin
import Assertions.Proofs.Parts

/-!
# What faults point at

The span of a fault marks a part of the text that was read, and the cause of the fault says
something about that part. `Fault.PointsInto` states both, for a text at some offset.

What a cause says about a part of a text it also says about the whole, except that a literal may be
left open in a part and closed after it. So `PointsInto` goes from a part that closes its literals to
the whole text (`within`), and from the end of a text to all of it (`behind`). This is enough to
follow the fault of a token to the text that was cut into tokens.
-/

namespace Assertions

/-- What a cause says about the marked part of a text and about the text around it. -/
def Cause.Describes (names : Text → Bool) (before marked after : Text) : Cause → Prop
  | .unknownFunction name => marked = name ∧ isIdentifier name = true ∧ names name = false
  | .openLiteral =>
    marked = [Symbol.quote] ∧ quotedThrough false before = false ∧ Symbol.quote ∉ after
  | .forbiddenInLiteral => marked = [Symbol.forbidden]
  | .badNumber text => marked = text
  | .badCharacter c => marked = [c]
  | .openCall _ | .openGroup | .openGuard => marked = [Symbol.openBracket]
  | .strayClose => marked = [Symbol.closeBracket]
  | .operatorForOperand op => marked = op.spelling
  | .emptyArgument _ => marked = []
  | _ => True

/-- Whether the span of a fault marks a part of a text at position `offset`, and the cause says the
right thing about it. -/
def Fault.PointsInto (names : Text → Bool) (offset : Nat) (text : Text) (fault : Fault) : Prop :=
  ∃ before marked after, text = before ++ marked ++ after ∧
    fault.span = ⟨offset + Text.size before, offset + Text.size before + Text.size marked⟩ ∧
    fault.cause.Describes names before marked after

/-- All causes but one are about the marked part alone. -/
theorem Cause.Describes.of_ne_openLiteral {names : Text → Bool} {cause : Cause}
    {before marked after : Text} (h : cause.Describes names before marked after)
    (hne : cause ≠ .openLiteral) (before' after' : Text) :
    cause.Describes names before' marked after' := by
  cases cause with
  | openLiteral => exact absurd rfl hne
  | _ => exact h

namespace Fault.PointsInto

variable {names : Text → Bool} {offset start : Nat} {text whole front : Text} {fault : Fault}

/-- No literal is left open in a text that closes its literals. -/
theorem ne_openLiteral (h : fault.PointsInto names offset text)
    (hclosed : quotedThrough false text = false) : fault.cause ≠ .openLiteral := by
  intro hcause
  obtain ⟨before, marked, after, rfl, -, hdescribes⟩ := h
  rw [hcause] at hdescribes
  obtain ⟨rfl, hbefore, hafter⟩ := hdescribes
  have hquote : quotedThrough false [Symbol.quote] = true := rfl
  rw [quotedThrough_append, quotedThrough_append, hbefore, hquote,
    quotedThrough_eq_of_not_mem hafter] at hclosed
  cases hclosed

/-- A fault of a part that closes its literals is one of the whole. -/
theorem within (h : fault.PointsInto names (offset + start) text)
    (hclosed : quotedThrough false text = false) (hstands : StandsAt text start whole) :
    fault.PointsInto names offset whole := by
  have hne := h.ne_openLiteral hclosed
  obtain ⟨before, marked, after, rfl, hspan, hdescribes⟩ := h
  obtain ⟨outer, rest, rfl, rfl⟩ := hstands
  refine ⟨outer ++ before, marked, after ++ rest, by simp, ?_, hdescribes.of_ne_openLiteral hne _ _⟩
  rw [hspan, Text.size_append, ← Nat.add_assoc]

/-- A fault of the end of a text is one of the text, if what precedes closes its literals. -/
theorem behind (h : fault.PointsInto names (offset + Text.size front) text)
    (hclosed : quotedThrough false front = false) :
    fault.PointsInto names offset (front ++ text) := by
  obtain ⟨before, marked, after, rfl, hspan, hdescribes⟩ := h
  refine ⟨front ++ before, marked, after, by simp, ?_, ?_⟩
  · rw [hspan, Text.size_append, ← Nat.add_assoc]
  · by_cases hcause : fault.cause = .openLiteral
    · rw [hcause] at hdescribes ⊢
      obtain ⟨hmarked, hbefore, hafter⟩ := hdescribes
      exact ⟨hmarked, by rw [quotedThrough_append, hclosed, hbefore], hafter⟩
    · exact hdescribes.of_ne_openLiteral hcause _ _

theorem shift (h : fault.PointsInto names 0 text) (k : Nat) :
    (fault.shift k).PointsInto names k text := by
  obtain ⟨before, marked, after, rfl, hspan, hdescribes⟩ := h
  refine ⟨before, marked, after, rfl, ?_, hdescribes⟩
  simp only [Fault.shift, hspan, Span.shift]
  congr 1 <;> omega

end Fault.PointsInto

/-! ### Tokens -/

/-- Whether a cause is one for which a single token cannot be read. -/
def Cause.isLexical : Cause → Bool
  | .unknownFunction _ | .endOfInput | .openLiteral | .forbiddenInLiteral | .badNumber _
  | .badCharacter _ | .openCall _ => true
  | _ => false

namespace Token

variable {names : Text → Bool} {offset : Nat} {fault : Fault}

theorem not_mem_of_splitAtQuote?_eq_none {text : Text}
    (h : Literal.splitAtQuote? text = none) : Symbol.quote ∉ text := by
  induction text with
  | nil => exact List.not_mem_nil
  | cons c rest ih =>
    simp only [Literal.splitAtQuote?] at h
    split at h
    · cases h
    · rename_i hc
      have hne : Symbol.quote ≠ c := by
        intro heq
        exact hc (by simp [heq])
      simp only [List.mem_cons, not_or]
      exact ⟨hne, ih (Option.map_eq_none_iff.1 h)⟩

/-- The first occurrence of a character stands behind characters that differ from it. -/
theorem exists_of_mem {c : Char} {text : Text} (h : c ∈ text) :
    ∃ after, text = text.takeWhile (· != c) ++ c :: after := by
  induction text with
  | nil => cases h
  | cons d rest ih =>
    by_cases hd : d = c
    · subst hd
      exact ⟨rest, by simp⟩
    · obtain ⟨after, hafter⟩ := ih ((List.mem_cons.1 h).resolve_left (Ne.symm hd))
      refine ⟨after, ?_⟩
      rw [List.takeWhile_cons_of_pos (by simpa using hd), List.cons_append, ← hafter]

theorem pointsInto_readString {rest : Text} (h : readString offset rest = .error fault) :
    fault.PointsInto names offset (Symbol.quote :: rest) := by
  unfold readString at h
  split at h
  · rename_i hsplit
    cases h
    exact ⟨[], [Symbol.quote], rest, rfl, rfl, rfl, rfl, not_mem_of_splitAtQuote?_eq_none hsplit⟩
  · rename_i content after hsplit
    dsimp only at h
    split at h
    · rename_i hforbidden
      cases h
      obtain ⟨more, hmore⟩ := exists_of_mem (List.contains_iff_mem.1 hforbidden)
      refine ⟨Symbol.quote :: content.takeWhile (· != Symbol.forbidden), [Symbol.forbidden],
        more ++ Symbol.quote :: after, ?_, ?_, rfl⟩
      · conv => lhs; rw [Literal.eq_of_splitAtQuote? hsplit, hmore]
        simp
      · rw [Text.size_cons, ← Nat.add_assoc]
        rfl
    · cases h

theorem pointsInto_readNumber {text : Text} (h : readNumber offset text = .error fault) :
    fault.PointsInto names offset text := by
  unfold readNumber at h
  dsimp only at h
  split at h
  · cases h
    exact ⟨[], text.takeWhile isNumberChar, text.dropWhile isNumberChar,
      List.takeWhile_append_dropWhile.symm, rfl, rfl⟩
  · cases h

theorem pointsInto_readName {c : Char} {rest : Text} (hstart : isNameStart c = true)
    (h : readName names offset (c :: rest) = .error fault) :
    fault.PointsInto names offset (c :: rest) := by
  have htext := (List.takeWhile_append_dropWhile (p := isWordChar) (l := c :: rest)).symm
  unfold readName at h
  dsimp only at h
  split at h
  · rename_i hunknown
    cases h
    exact ⟨[], (c :: rest).takeWhile isWordChar, (c :: rest).dropWhile isWordChar, htext, rfl, rfl,
      isIdentifier_takeWhile hstart rest, by simpa using hunknown⟩
  · split at h
    · cases h
    · rename_i d more hdrop
      split at h
      · rename_i hd
        split at h
        · cases h
          rw [hdrop, beq_iff_eq.1 hd] at htext
          exact ⟨_, [Symbol.openBracket], more, by simpa using htext, rfl, rfl⟩
        · cases h
      · cases h

theorem pointsInto_readSymbol {c : Char} {rest : Text}
    (h : readSymbol offset c rest = .error fault) :
    fault.PointsInto names offset (c :: rest) := by
  unfold readSymbol at h
  split at h
  · cases h
  · split at h
    · cases h
    · split at h
      · cases h
      · cases h
        exact ⟨[], [c], rest, rfl, rfl, rfl⟩

/-- The fault of a token points into the text that starts with it. -/
theorem pointsInto_read {text : Text} (h : read names offset text = .error fault) :
    fault.PointsInto names offset text := by
  cases text with
  | nil =>
    cases h
    exact ⟨[], [], [], rfl, rfl, trivial⟩
  | cons c rest =>
    simp only [read] at h
    split at h
    · cases h
    · split at h
      · cases h
      · split at h
        · rename_i hc
          rw [beq_iff_eq.1 hc]
          exact pointsInto_readString h
        · split at h
          · exact pointsInto_readNumber h
          · split at h
            · rename_i hstart
              exact pointsInto_readName hstart h
            · exact pointsInto_readSymbol h

/-- Whether a fault is one of a single token. Where the brackets of a call are open, the name of the
call and an opening bracket without a partner stand at the start of the text. -/
structure IsLexical (offset : Nat) (text : Text) (fault : Fault) : Prop where
  cause_eq : fault.cause.isLexical = true
  openCall : ∀ name, fault.cause = .openCall name →
    ∃ after, text = name ++ Symbol.openBracket :: after ∧ isIdentifier name = true ∧
      fault.span.start = offset + Text.size name ∧ enclosed? after = none

theorem isLexical_readString {rest : Text} (h : readString offset rest = .error fault) :
    IsLexical offset (Symbol.quote :: rest) fault := by
  unfold readString at h
  split at h
  · cases h
    exact ⟨rfl, by rintro name ⟨⟩⟩
  · dsimp only at h
    split at h
    · cases h
      exact ⟨rfl, by rintro name ⟨⟩⟩
    · cases h

theorem isLexical_readName {c : Char} {rest : Text} (hstart : isNameStart c = true)
    (h : readName names offset (c :: rest) = .error fault) :
    IsLexical offset (c :: rest) fault := by
  have htext := (List.takeWhile_append_dropWhile (p := isWordChar) (l := c :: rest)).symm
  have hname := isIdentifier_takeWhile hstart rest
  unfold readName at h
  dsimp only at h
  split at h
  · cases h
    exact ⟨rfl, by rintro name ⟨⟩⟩
  · split at h
    · cases h
    · rename_i d more hdrop
      split at h
      · rename_i hd
        split at h
        · rename_i hclose
          cases h
          rw [hdrop, beq_iff_eq.1 hd] at htext
          refine ⟨rfl, ?_⟩
          rintro name ⟨⟩
          exact ⟨more, htext, hname, rfl, hclose⟩
        · cases h
      · cases h

theorem isLexical_readSymbol {c : Char} {rest : Text}
    (h : readSymbol offset c rest = .error fault) : IsLexical offset (c :: rest) fault := by
  unfold readSymbol at h
  split at h
  · cases h
  · split at h
    · cases h
    · split at h
      · cases h
      · cases h
        exact ⟨rfl, by rintro name ⟨⟩⟩

/-- The fault of a token is about that token. -/
theorem isLexical_read {text : Text} (h : read names offset text = .error fault) :
    IsLexical offset text fault := by
  cases text with
  | nil =>
    cases h
    exact ⟨rfl, by rintro name ⟨⟩⟩
  | cons c rest =>
    simp only [read] at h
    split at h
    · cases h
    · split at h
      · cases h
      · split at h
        · rename_i hc
          rw [beq_iff_eq.1 hc]
          exact isLexical_readString h
        · split at h
          · unfold readNumber at h
            dsimp only at h
            split at h
            · cases h
              exact ⟨rfl, by rintro name ⟨⟩⟩
            · cases h
          · split at h
            · rename_i hstart
              exact isLexical_readName hstart h
            · exact isLexical_readSymbol h

end Token

variable {names : Text → Bool} {offset : Nat} {text : Text} {fault : Fault}

/-- The fault of a text that is cut into tokens points into it. The induction is on the tokens that
there is room for, and what the tokens in front of the fault are spelled closes its literals. -/
theorem pointsInto_tokenizeWithin {room : Nat} :
    ∀ {offset : Nat} {text : Text}, tokenizeWithin names room offset text = .error fault →
      fault.PointsInto names offset text := by
  induction room with
  | zero =>
    intro offset text h
    cases text with
    | nil => cases h
    | cons c rest =>
      cases h
      exact ⟨[], c :: rest, [], by simp, rfl, trivial⟩
  | succ room ih =>
    intro offset text h
    cases text with
    | nil => cases h
    | cons c rest =>
      cases hread : Token.read names offset (c :: rest) with
      | error first =>
        rw [tokenizeWithin_cons, hread] at h
        cases h
        exact Token.pointsInto_read hread
      | ok lexeme =>
        obtain ⟨htext, hlexeme⟩ := Token.isLexeme_read hread
        rw [tokenizeWithin_of_read hread] at h
        cases hothers : tokenizeWithin names room (offset + Text.size lexeme.text) lexeme.rest with
        | ok others =>
          rw [hothers] at h
          cases h
        | error later =>
          rw [hothers] at h
          cases h
          rw [htext]
          exact (ih hothers).behind hlexeme.quotedThrough_eq

namespace IsWritten

variable {tokens more : List PlacedToken}

/-- No literal reaches out of a text that is made up of tokens. -/
theorem quotedThrough_eq (h : IsWritten names offset text tokens) :
    quotedThrough false text = false := by
  induction h with
  | nil => rfl
  | cons htoken _ _ ih => rw [quotedThrough_append, htoken.quotedThrough_eq, ih]

/-- The end of some tokens is written at the end of their text. -/
theorem of_suffix (h : IsWritten names offset text tokens) (hmore : more <:+ tokens) :
    ∃ part start, StandsAt part start text ∧ start + Text.size part = Text.size text ∧
      IsWritten names (offset + start) part more := by
  obtain ⟨front, rfl⟩ := hmore
  obtain ⟨a, b, rfl, -, hback⟩ := h.of_append
  exact ⟨b, Text.size a, ⟨a, [], by simp, rfl⟩, (Text.size_append a b).symm, hback⟩

/-- The last token of a text ends with it. -/
theorem endOf_eq (h : IsWritten names offset text tokens) (hne : tokens ≠ []) :
    endOf tokens = offset + Text.size text := by
  induction h with
  | nil => exact absurd rfl hne
  | cons htoken hcondensed hrest ih =>
    rename_i offset token text rest others
    cases others with
    | nil =>
      cases hrest
      rw [List.append_nil]
      rfl
    | cons second others =>
      have hlast := ih (List.cons_ne_nil second others)
      rw [Text.size_append, ← Nat.add_assoc, ← hlast]
      simp [endOf]

/-- A fault that marks a token of a text and is about the way that token is spelled. -/
theorem pointsInto_token {token : Token} {span : Span} {cause : Cause}
    (h : IsWritten names offset text tokens) (hmore : ⟨token, span⟩ :: more <:+ tokens)
    (hcause : ∀ at' lexeme after, IsLexeme names at' token lexeme →
      cause.Describes names [] lexeme after) :
    (Fault.mk cause span).PointsInto names offset text := by
  obtain ⟨part, start, hstands, -, hpart⟩ := h.of_suffix hmore
  obtain ⟨lexeme, rest, rfl, rfl, htoken, -, -⟩ := hpart.of_cons
  have hhead : (Fault.mk cause ⟨offset + start, offset + start + Text.size lexeme⟩).PointsInto names
      (offset + start) (lexeme ++ rest) := ⟨[], lexeme, rest, rfl, rfl, hcause _ lexeme rest htoken⟩
  exact hhead.within hpart.quotedThrough_eq hstands

theorem pointsInto_strayClose {span : Span} (h : IsWritten names offset text tokens)
    (hmore : ⟨.closeBracket, span⟩ :: more <:+ tokens) :
    (Fault.mk .strayClose span).PointsInto names offset text := by
  refine h.pointsInto_token hmore ?_
  rintro at' lexeme after ⟨⟩
  rfl

end IsWritten

end Assertions
