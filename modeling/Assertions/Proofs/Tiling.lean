import Assertions.Proofs.Faults
import Assertions.Proofs.Positions

/-!
# Tokens tile a text

Every token that is read takes up some of the text, so reading comes to an end, and the tokens lie
side by side from the start of the text to its end. The text can be told from them: a token other
than a number has the text it was read from, and a number has a numeral that ends where digits and
dots do.

`Reads` is reading token after token, as often as one likes. With it the limit on the number of
tokens can be stated without the reader that keeps to it (`exists_tooManyTokens_iff`).
-/

namespace Assertions

variable {names : Text → Bool} {offset : Nat} {text rest : Text}

/-! ### One token -/

namespace IsLexeme

variable {token : Token}

theorem text_ne_nil (h : IsLexeme names offset token text) : text ≠ [] := by
  cases h with
  | number hdigits => exact hdigits.ne_nil
  | statement hname =>
    rintro rfl
    cases hname
  | operator op => cases op <;> simp [Operator.spelling]
  | _ => simp

/-- A token other than a number is spelled in one way. -/
theorem toText_eq (h : IsLexeme names offset token text)
    (hnumber : ∀ value, token ≠ .number value) : token.toText = text := by
  cases h with
  | number hdigits => exact absurd rfl (hnumber _)
  | _ => rfl

/-- A number is spelled by a numeral that gives its value. -/
theorem isNumeral (h : IsLexeme names offset token text) {value : Float}
    (htoken : token = .number value) : IsNumeral text ∧ value = Decimal.literalValue text := by
  cases h with
  | number hdigits =>
    cases htoken
    exact ⟨hdigits, rfl⟩
  | _ => cases htoken

/-- The argument list of a call lies between two brackets behind the name. -/
theorem args (h : IsLexeme names offset token text) {name args : Text} {argsAt : Nat}
    (htoken : token = .call name args argsAt) :
    text = name ++ Symbol.openBracket :: args ++ [Symbol.closeBracket] ∧
      argsAt = offset + Text.size name + 1 := by
  cases h with
  | call hname hknown hclosed =>
    cases htoken
    exact ⟨rfl, rfl⟩
  | _ => cases htoken

end IsLexeme

namespace Token

variable {lexeme : Lexeme}

/-- A number is read by the reader of numbers and by no other. -/
theorem readNumber_of_read {value : Float} (h : read names offset text = .ok lexeme)
    (htoken : lexeme.token = .number value) : readNumber offset text = .ok lexeme := by
  have hstart : startsNumber text = true := by
    obtain ⟨htext, hlexeme⟩ := isLexeme_read h
    rw [htext]
    exact startsNumber_of_isNumeral (hlexeme.isNumeral htoken).1 lexeme.rest
  cases text with
  | nil => cases h
  | cons c tail =>
    simp only [read] at h
    split at h
    · cases h
      cases htoken
    · split at h
      · cases h
        cases htoken
      · split at h
        · rename_i hquote
          rw [beq_iff_eq.1 hquote] at hstart
          cases hstart
        · exact h

/-- No digit and no dot follows a number. -/
theorem not_isNumberChar_of_read {value : Float} {c : Char}
    (h : read names offset text = .ok lexeme) (htoken : lexeme.token = .number value)
    (hrest : lexeme.rest = c :: rest) : isNumberChar c = false := by
  have hnumber := readNumber_of_read h htoken
  unfold readNumber at hnumber
  dsimp only at hnumber
  split at hnumber
  · cases hnumber
  · cases hnumber
    have hstop := List.head?_dropWhile_not isNumberChar text
    rw [show text.dropWhile isNumberChar = c :: rest from hrest] at hstop
    exact hstop

end Token

/-! ### Token after token -/

/-- Whether tokens can be read one after another from a text at position `offset`, with `rest` left
over. -/
inductive Reads (names : Text → Bool) : (offset : Nat) → Text → List PlacedToken → Text → Prop
  | done (offset : Nat) (text : Text) : Reads names offset text [] text
  | next {offset : Nat} {text rest : Text} {lexeme : Lexeme} {tokens : List PlacedToken}
    (hread : Token.read names offset text = .ok lexeme)
    (h : Reads names (offset + Text.size lexeme.text) lexeme.rest tokens rest) :
    Reads names offset text
      (⟨lexeme.token, ⟨offset, offset + Text.size lexeme.text⟩⟩ :: tokens) rest

/-- The first of the tokens is read from the front of the text. -/
theorem Reads.of_cons {tokens : List PlacedToken} {placed : PlacedToken}
    (h : Reads names offset text (placed :: tokens) rest) :
    ∃ lexeme, Token.read names offset text = .ok lexeme ∧
      placed = ⟨lexeme.token, ⟨offset, offset + Text.size lexeme.text⟩⟩ ∧
      Reads names (offset + Text.size lexeme.text) lexeme.rest tokens rest := by
  cases h with
  | next hread hrest => exact ⟨_, hread, rfl, hrest⟩

/-- A text is cut into tokens if they can be read and leave nothing over, and are not too many. -/
theorem tokenizeWithin_eq_ok_iff {room : Nat} :
    ∀ {offset : Nat} {text : Text} {tokens : List PlacedToken},
      tokenizeWithin names room offset text = .ok tokens ↔
        Reads names offset text tokens [] ∧ tokens.length ≤ room := by
  induction room with
  | zero =>
    intro offset text tokens
    cases text with
    | nil =>
      constructor
      · intro h
        cases h
        exact ⟨.done offset [], Nat.le_refl 0⟩
      · rintro ⟨h, hlength⟩
        cases List.eq_nil_of_length_eq_zero (Nat.le_zero.1 hlength)
        rfl
    | cons c tail =>
      constructor
      · intro h
        cases h
      · rintro ⟨h, hlength⟩
        cases List.eq_nil_of_length_eq_zero (Nat.le_zero.1 hlength)
        cases h
  | succ room ih =>
    intro offset text tokens
    constructor
    · intro h
      cases text with
      | nil =>
        cases h
        exact ⟨.done offset [], Nat.zero_le _⟩
      | cons c tail =>
        rw [tokenizeWithin_cons] at h
        cases hread : Token.read names offset (c :: tail) with
        | error fault =>
          rw [hread] at h
          cases h
        | ok lexeme =>
          rw [hread] at h
          cases hothers : tokenizeWithin names room (offset + Text.size lexeme.text)
              lexeme.rest with
          | error fault =>
            rw [Except.bind, hothers] at h
            cases h
          | ok others =>
            rw [Except.bind, hothers] at h
            cases h
            obtain ⟨hreads, hlength⟩ := ih.1 hothers
            exact ⟨.next hread hreads, Nat.succ_le_succ hlength⟩
    · rintro ⟨h, hlength⟩
      cases h with
      | done => rfl
      | next hread h =>
        rw [tokenizeWithin_of_read hread, ih.2 ⟨h, Nat.le_of_succ_le_succ hlength⟩]
        rfl

/-- The limit on the number of tokens is reached if that many can be read and something is left. -/
theorem exists_tooManyTokens_iff {room : Nat} :
    ∀ {offset : Nat} {text : Text},
      (∃ span, tokenizeWithin names room offset text = .error ⟨.tooManyTokens, span⟩) ↔
        ∃ tokens rest, tokens.length = room ∧ Reads names offset text tokens rest ∧ rest ≠ [] := by
  induction room with
  | zero =>
    intro offset text
    cases text with
    | nil =>
      constructor
      · rintro ⟨span, h⟩
        cases h
      · rintro ⟨tokens, rest, hlength, h, hrest⟩
        cases List.eq_nil_of_length_eq_zero hlength
        cases h
        exact absurd rfl hrest
    | cons c tail =>
      constructor
      · rintro -
        exact ⟨[], c :: tail, rfl, .done offset _, List.cons_ne_nil c tail⟩
      · rintro -
        exact ⟨_, rfl⟩
  | succ room ih =>
    intro offset text
    constructor
    · rintro ⟨span, h⟩
      cases text with
      | nil => cases h
      | cons c tail =>
        rw [tokenizeWithin_cons] at h
        cases hread : Token.read names offset (c :: tail) with
        | error fault =>
          rw [hread] at h
          cases h
          cases (Token.isLexical_read hread).cause_eq
        | ok lexeme =>
          rw [hread] at h
          cases hothers : tokenizeWithin names room (offset + Text.size lexeme.text)
              lexeme.rest with
          | ok others =>
            rw [Except.bind, hothers] at h
            cases h
          | error fault =>
            rw [Except.bind, hothers] at h
            cases h
            obtain ⟨tokens, rest, hlength, hreads, hrest⟩ := ih.1 ⟨span, hothers⟩
            exact ⟨_, rest, congrArg (· + 1) hlength, .next hread hreads, hrest⟩
    · rintro ⟨tokens, rest, hlength, h, hrest⟩
      cases h with
      | done => cases hlength
      | next hread h =>
        obtain ⟨span, hothers⟩ := ih.2 ⟨_, rest, Nat.succ.inj hlength, h, hrest⟩
        refine ⟨span, ?_⟩
        rw [tokenizeWithin_of_read hread, hothers]
        rfl

/-! ### Side by side -/

/-- Whether the spans of tokens lie side by side from one position to another and none is empty. -/
def Tiles : (start stop : Nat) → List PlacedToken → Prop
  | start, stop, [] => start = stop
  | start, stop, placed :: others =>
    placed.span.start = start ∧ start < placed.span.stop ∧ Tiles placed.span.stop stop others

/-- Whether the text can be told from a token of it. -/
structure PlacedToken.IsFaithful (text : Text) (placed : PlacedToken) : Prop where
  spelled : (∀ value, placed.token ≠ .number value) →
    placed.span.text? text = some placed.token.toText
  numeral : ∀ value, placed.token = .number value → ∃ digits,
    placed.span.text? text = some digits ∧ IsNumeral digits ∧
      value = Decimal.literalValue digits ∧
      ∀ c rest, text.dropBytes? placed.span.stop = some (c :: rest) → Token.isNumberChar c = false
  args : ∀ name args argsAt, placed.token = .call name args argsAt →
    text.slice? argsAt (argsAt + Text.size args) = some args

/-- A token that was read behind another text can be told from the whole. -/
theorem isFaithful_of_read {before : Text} {lexeme : Lexeme}
    (h : Token.read names (Text.size before) text = .ok lexeme) :
    PlacedToken.IsFaithful (before ++ text)
      ⟨lexeme.token, ⟨Text.size before, Text.size before + Text.size lexeme.text⟩⟩ := by
  obtain ⟨htext, hlexeme⟩ := Token.isLexeme_read h
  have hmarked : (Span.mk (Text.size before) (Text.size before + Text.size lexeme.text)).text?
      (before ++ text) = some lexeme.text := by
    rw [htext, ← List.append_assoc]
    exact Text.slice?_append before lexeme.text lexeme.rest
  have hbehind : Text.dropBytes? (before ++ text)
      (Text.size before + Text.size lexeme.text) = some lexeme.rest := by
    rw [htext, ← List.append_assoc, ← Text.size_append]
    exact Text.dropBytes?_append (before ++ lexeme.text) lexeme.rest
  constructor
  · intro hnumber
    rw [hlexeme.toText_eq hnumber]
    exact hmarked
  · intro value (htoken : lexeme.token = .number value)
    obtain ⟨hnumeral, hvalue⟩ := hlexeme.isNumeral htoken
    refine ⟨lexeme.text, hmarked, hnumeral, hvalue, ?_⟩
    intro c rest hdrop
    exact Token.not_isNumberChar_of_read h htoken (Option.some.inj (hbehind.symm.trans hdrop))
  · intro name args argsAt (htoken : lexeme.token = .call name args argsAt)
    obtain ⟨hspelled, rfl⟩ := hlexeme.args htoken
    have hargs := Text.slice?_append (before ++ name ++ [Symbol.openBracket]) args
      (Symbol.closeBracket :: lexeme.rest)
    have hopen : Symbol.openBracket.utf8Size = 1 := rfl
    rw [htext, hspelled]
    simpa [hopen, Nat.add_assoc] using hargs

namespace Reads

variable {tokens : List PlacedToken}

/-- What is read lies side by side and makes up the text together with what is left. -/
theorem exists_tiles (h : Reads names offset text tokens rest) :
    ∃ front, text = front ++ rest ∧ Tiles offset (offset + Text.size front) tokens := by
  induction h with
  | done offset text => exact ⟨[], rfl, rfl⟩
  | next hread h ih =>
    rename_i offset text rest lexeme tokens
    obtain ⟨htext, hlexeme⟩ := Token.isLexeme_read hread
    obtain ⟨front, hfront, htiles⟩ := ih
    have hpos := Text.size_pos hlexeme.text_ne_nil
    refine ⟨lexeme.text ++ front, ?_, rfl, Nat.lt_add_of_pos_right hpos, ?_⟩
    · rw [List.append_assoc, ← hfront]
      exact htext
    · rw [Text.size_append, ← Nat.add_assoc]
      exact htiles

/-- Every token that is read can be told from the text. -/
theorem isFaithful (h : Reads names offset text tokens rest) :
    ∀ before : Text, Text.size before = offset →
      ∀ placed ∈ tokens, placed.IsFaithful (before ++ text) := by
  induction h with
  | done offset text => exact fun before _ => List.forall_mem_nil _
  | next hread h ih =>
    rename_i offset text rest lexeme tokens
    rintro before rfl
    have htext := (Token.isLexeme_read hread).1
    have hrest := ih (before ++ lexeme.text) (Text.size_append _ _)
    rw [List.append_assoc, ← htext] at hrest
    exact List.forall_mem_cons.2 ⟨isFaithful_of_read hread, hrest⟩

end Reads

/-! ### Whole texts -/

/-- A token ends later than it starts, at a boundary. -/
theorem Token.isBoundary_of_read {before : Text} {lexeme : Lexeme}
    (h : Token.read names (Text.size before) text = .ok lexeme) :
    Text.size before < Text.size before + Text.size lexeme.text ∧
      IsBoundary (before ++ text) (Text.size before + Text.size lexeme.text) := by
  obtain ⟨htext, hlexeme⟩ := Token.isLexeme_read h
  refine ⟨Nat.lt_add_of_pos_right (Text.size_pos hlexeme.text_ne_nil),
    before ++ lexeme.text, lexeme.rest, ?_, Text.size_append _ _⟩
  rw [List.append_assoc, ← htext]

/-- The tokens of a text lie side by side over all of it, and each can be told from it. -/
theorem tiles_of_lex {source : Text} {tokens : List PlacedToken}
    (h : lex names source = .ok (text, tokens)) :
    text = condense source ∧ Tiles 0 (Text.size text) tokens ∧ tokens.length ≤ maxTokens ∧
      ∀ placed ∈ tokens, placed.IsFaithful text := by
  rw [lex_eq_map] at h
  cases htokens : tokenize names 0 (condense source) with
  | error fault =>
    rw [htokens] at h
    cases h
  | ok found =>
    rw [htokens] at h
    cases h
    obtain ⟨hreads, hlength⟩ := tokenizeWithin_eq_ok_iff.1 htokens
    obtain ⟨front, hfront, htiles⟩ := hreads.exists_tiles
    rw [List.append_nil] at hfront
    rw [← hfront, Nat.zero_add] at htiles
    exact ⟨rfl, htiles, hlength, hreads.isFaithful [] rfl⟩

/-- **Cutting loses nothing.** At any boundary of the condensed text a token can be read without a
cut that fails, and what is read ends later, at a boundary. The tokens of a text lie side by side
over all of it, are not more than the limit, and each can be told from the text. The limit is reached
exactly if that many tokens can be read and something is left. -/
theorem lex_lossless (names : Text → Bool) (source : Text) :
    (∀ offset, IsBoundary (condense source) offset → ∃ result,
      Token.readAt? names (condense source) offset = some result ∧
        (∀ rest, (condense source).dropBytes? offset = some rest →
          result = (Token.read names offset rest).map (·.endAt offset)) ∧
        ∀ token stop, result = .ok (token, stop) →
          offset < stop ∧ stop ≤ Text.size (condense source) ∧
            IsBoundary (condense source) stop) ∧
    (∀ text tokens, lex names source = .ok (text, tokens) →
      text = condense source ∧ Tiles 0 (Text.size text) tokens ∧ tokens.length ≤ maxTokens ∧
        ∀ placed ∈ tokens, placed.IsFaithful text) ∧
    ((∃ span, lex names source = .error ⟨.tooManyTokens, span⟩) ↔
      ∃ tokens rest, tokens.length = maxTokens ∧
        Reads names 0 (condense source) tokens rest ∧ rest ≠ []) := by
  refine ⟨?_, fun text tokens => tiles_of_lex, ?_⟩
  · rintro offset ⟨before, after, htext, rfl⟩
    rw [htext]
    refine ⟨_, Token.readAt?_append names before after, ?_, ?_⟩
    · intro rest hrest
      rw [Text.dropBytes?_append] at hrest
      cases hrest
      rfl
    · intro token stop hresult
      cases hread : Token.read names (Text.size before) after with
      | error fault =>
        rw [hread] at hresult
        cases hresult
      | ok lexeme =>
        rw [hread] at hresult
        cases hresult
        obtain ⟨hlt, hboundary⟩ := Token.isBoundary_of_read hread
        exact ⟨hlt, hboundary.le_size, hboundary⟩
  · have hlex : (∃ span, lex names source = .error ⟨.tooManyTokens, span⟩) ↔
        ∃ span, tokenizeWithin names maxTokens 0 (condense source) =
          .error ⟨.tooManyTokens, span⟩ := by
      rw [lex_eq_map, tokenize]
      cases tokenizeWithin names maxTokens 0 (condense source) <;> simp [Except.map]
    exact hlex.trans exists_tooManyTokens_iff

/-- A call with a quoted letter of two bytes, an operator and a number. -/
theorem lex_lossless_call :
    lex (· == ['f']) ['f', '(', ' ', '\x27', 'é', '\x27', ')', '=', '=', '.', '5'] =
      .ok (['f', '(', '\x27', 'é', '\x27', ')', '=', '=', '.', '5'],
        [⟨.call ['f'] ['\x27', 'é', '\x27'] 2, ⟨0, 7⟩⟩, ⟨.operator .eq, ⟨7, 9⟩⟩,
          ⟨.number (Decimal.literalValue ['.', '5']), ⟨9, 11⟩⟩]) ∧
    Tiles 0 11 [⟨.call ['f'] ['\x27', 'é', '\x27'] 2, ⟨0, 7⟩⟩, ⟨.operator .eq, ⟨7, 9⟩⟩,
      ⟨.number (Decimal.literalValue ['.', '5']), ⟨9, 11⟩⟩] ∧
    ∃ result, Token.readAt? (· == ['f']) ['f', '(', '\x27', 'é', '\x27', ')'] 6 =
      some result := by
  have hlex : lex (· == ['f']) ['f', '(', ' ', '\x27', 'é', '\x27', ')', '=', '=', '.', '5'] =
      .ok (['f', '(', '\x27', 'é', '\x27', ')', '=', '=', '.', '5'],
        [⟨.call ['f'] ['\x27', 'é', '\x27'] 2, ⟨0, 7⟩⟩, ⟨.operator .eq, ⟨7, 9⟩⟩,
          ⟨.number (Decimal.literalValue ['.', '5']), ⟨9, 11⟩⟩]) := rfl
  obtain ⟨-, htiles, -⟩ := (lex_lossless _ _).2.1 _ _ hlex
  obtain ⟨result, hresult, -⟩ := (lex_lossless (· == ['f'])
    ['f', '(', '\x27', 'é', '\x27', ')']).1 6
      ⟨['f', '(', '\x27', 'é', '\x27'], [')'], rfl, rfl⟩
  exact ⟨hlex, htiles, result, hresult⟩

end Assertions
