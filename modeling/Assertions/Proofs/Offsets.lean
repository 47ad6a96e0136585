import Assertions.Token.Reading

/-!
# Reading at another offset

The offset that a reader of tokens is given moves what it reports and changes nothing else. The
tokens of a text that starts `k` bytes later are those of the text, moved by `k`, and so is the
fault if there is one.
-/

namespace Assertions

/-- The lexeme as it is in a text that starts `k` bytes later. -/
def Lexeme.shift (lexeme : Lexeme) (k : Nat) : Lexeme :=
  { lexeme with token := lexeme.token.shift k }

namespace Token

variable (names : Text → Bool) (offset k : Nat)

theorem readString_add (rest : Text) :
    readString (offset + k) rest =
      shiftError k ((readString offset rest).map (·.shift k)) := by
  unfold readString
  cases Literal.splitAtQuote? rest with
  | none => simp [shiftError, Except.map, Fault.shift, Span.shift]; omega
  | some cut =>
    by_cases hforbidden : cut.1.contains Symbol.forbidden = true
    · simp only [if_pos hforbidden, shiftError, Except.map, Fault.shift, Span.shift]
      congr 3 <;> omega
    · simp only [if_neg hforbidden]
      rfl

theorem readNumber_add (text : Text) :
    readNumber (offset + k) text =
      shiftError k ((readNumber offset text).map (·.shift k)) := by
  unfold readNumber
  dsimp only
  split
  · simp only [shiftError, Except.map, Fault.shift, Span.shift]
    congr 3
    omega
  · rfl

theorem readName_add (text : Text) :
    readName names (offset + k) text =
      shiftError k ((readName names offset text).map (·.shift k)) := by
  have hstop : offset + k + Text.size (text.takeWhile isWordChar) =
      offset + Text.size (text.takeWhile isWordChar) + k := by omega
  unfold readName
  dsimp only
  rw [hstop]
  split
  · rfl
  · split
    · rfl
    · split
      · split
        · simp only [shiftError, Except.map, Fault.shift, Span.shift]
          congr 3
          omega
        · simp only [shiftError, Except.map, Lexeme.shift, Token.shift]
          congr 3
          omega
      · rfl

theorem readSymbol_add (c : Char) (rest : Text) :
    readSymbol (offset + k) c rest =
      shiftError k ((readSymbol offset c rest).map (·.shift k)) := by
  unfold readSymbol
  split
  · rfl
  · split
    · rfl
    · split
      · rfl
      · simp only [shiftError, Except.map, Fault.shift, Span.shift]
        congr 3
        omega

/-- **A token at another offset.** The lexeme or the fault is the same and moved. -/
theorem read_add (text : Text) :
    read names (offset + k) text = shiftError k ((read names offset text).map (·.shift k)) := by
  cases text with
  | nil => rfl
  | cons c rest =>
    simp only [read]
    split
    · rfl
    · split
      · rfl
      · split
        · exact readString_add offset k rest
        · split
          · exact readNumber_add offset k (c :: rest)
          · split
            · exact readName_add names offset k (c :: rest)
            · exact readSymbol_add offset k c rest

end Token

theorem tokenizeWithin_add (names : Text → Bool) (k : Nat) :
    ∀ (room offset : Nat) (text : Text),
      tokenizeWithin names room (offset + k) text =
        shiftError k ((tokenizeWithin names room offset text).map (List.map (·.shift k))) := by
  intro room
  induction room with
  | zero =>
    intro offset text
    cases text with
    | nil => rfl
    | cons c rest =>
      simp only [tokenizeWithin, shiftError, Except.map, Fault.shift, Span.shift]
      congr 3
      omega
  | succ room ih =>
    intro offset text
    cases text with
    | nil => rfl
    | cons c rest =>
      unfold tokenizeWithin
      rw [Token.read_add]
      cases Token.read names offset (c :: rest) with
      | error fault => rfl
      | ok lexeme =>
        have hstop : offset + k + Text.size lexeme.text = offset + Text.size lexeme.text + k := by
          omega
        simp only [shiftError, Except.map, Lexeme.shift, hstop, ih]
        cases tokenizeWithin names room (offset + Text.size lexeme.text) lexeme.rest with
        | error fault => rfl
        | ok others => rfl

/-- **A text at an offset.** Its tokens are the tokens of the text at the start, moved. -/
theorem tokenize_eq_shift (names : Text → Bool) (offset : Nat) (text : Text) :
    tokenize names offset text =
      shiftError offset ((tokenize names 0 text).map (List.map (·.shift offset))) := by
  have h := tokenizeWithin_add names offset maxTokens 0 text
  rwa [Nat.zero_add] at h

theorem tokenize_eq_ok_iff {names : Text → Bool} {offset : Nat} {text : Text}
    {tokens : List PlacedToken} :
    tokenize names offset text = .ok tokens ↔
      ∃ found, tokenize names 0 text = .ok found ∧ tokens = found.map (·.shift offset) := by
  rw [tokenize_eq_shift]
  cases tokenize names 0 text with
  | error fault => simp [shiftError, Except.map]
  | ok found => simp [shiftError, Except.map, eq_comm]

end Assertions
