import Assertions.Proofs.Acceptance
import Assertions.Proofs.Lexing

/-!
# What was written when a text is read

Every expression that is read from a text is the tree of a phrase, and the text of that phrase is
the condensed text. A token that is read was spelled in the one way that `IsLexeme` gives, and a
tree over such tokens is put together from phrases for its parts.
-/

namespace Assertions

/-! ### Lexemes -/

/-- How a token at position `offset` is spelled. -/
inductive IsLexeme (names : Text → Bool) (offset : Nat) : Token → Text → Prop
  | ref (side : Side) {path : Path} (hpath : path.IsPlain) :
    IsLexeme names offset (.ref side path) (side.symbol :: path.toText)
  | string {content : Text} (hquote : Symbol.quote ∉ content)
    (hforbidden : Symbol.forbidden ∉ content) :
    IsLexeme names offset (.string content) (Symbol.quote :: content ++ [Symbol.quote])
  | number {digits : Text} (hdigits : IsNumeral digits) :
    IsLexeme names offset (.number (Decimal.literalValue digits)) digits
  | statement {name : Text} (hname : isIdentifier name = true) (hknown : names name = true) :
    IsLexeme names offset (.statement name) name
  | call {name args : Text} (hname : isIdentifier name = true) (hknown : names name = true)
    (hclosed : quotedThrough false args = false) :
    IsLexeme names offset (.call name args (offset + Text.size name + 1))
      (name ++ Symbol.openBracket :: args ++ [Symbol.closeBracket])
  | operator (op : Operator) : IsLexeme names offset (.operator op) op.spelling
  | openBracket : IsLexeme names offset .openBracket [Symbol.openBracket]
  | closeBracket : IsLexeme names offset .closeBracket [Symbol.closeBracket]

namespace Token

variable {names : Text → Bool} {offset : Nat}

theorem splitAtQuote?_content {text content after : Text}
    (h : Literal.splitAtQuote? text = some (content, after)) : Symbol.quote ∉ content := by
  induction text generalizing content with
  | nil => cases h
  | cons c rest ih =>
    simp only [Literal.splitAtQuote?] at h
    split at h
    · cases h
      exact List.not_mem_nil
    · rename_i hc
      simp only [Option.map_eq_some_iff, Prod.mk.injEq, Prod.exists] at h
      obtain ⟨inside, rest', hrest, rfl, rfl⟩ := h
      have hne : Symbol.quote ≠ c := by
        intro heq
        exact hc (by simp [heq])
      simp only [List.mem_cons, not_or]
      exact ⟨hne, ih hrest⟩

theorem isLexeme_readRef (side : Side) (rest : Text) :
    IsLexeme names offset (readRef side rest).token (readRef side rest).text := by
  have hchars : ∀ c ∈ rest.takeWhile isPathChar, isPathChar c = true :=
    fun c hc => List.all_eq_true.1 List.all_takeWhile c hc
  have hlexeme : IsLexeme names offset (.ref side (.ofText (rest.takeWhile isPathChar)))
      (side.symbol :: (Path.ofText (rest.takeWhile isPathChar)).toText) :=
    .ref side (Path.isPlain_ofText hchars)
  rwa [Path.toText_ofText] at hlexeme

theorem isLexeme_readString {rest : Text} {lexeme : Lexeme}
    (h : readString offset rest = .ok lexeme) :
    Symbol.quote :: rest = lexeme.text ++ lexeme.rest ∧
      IsLexeme names offset lexeme.token lexeme.text := by
  unfold readString at h
  split at h
  · cases h
  · rename_i content after hsplit
    dsimp only at h
    split at h
    · cases h
    · rename_i hforbidden
      cases h
      refine ⟨?_, .string (splitAtQuote?_content hsplit) (by simpa using hforbidden)⟩
      rw [Literal.eq_of_splitAtQuote? hsplit]
      simp

theorem isLexeme_readNumber {text : Text} {lexeme : Lexeme} (hstart : startsNumber text = true)
    (h : readNumber offset text = .ok lexeme) :
    text = lexeme.text ++ lexeme.rest ∧ IsLexeme names offset lexeme.token lexeme.text := by
  unfold readNumber at h
  dsimp only at h
  split at h
  · cases h
  · rename_i hbad
    cases h
    simp only [Bool.or_eq_true, beq_iff_eq, decide_eq_true_eq, not_or, Nat.not_lt] at hbad
    refine ⟨List.takeWhile_append_dropWhile.symm, .number (isNumeral_of_count_le_one ?_ ?_ ?_ ?_)⟩
    · cases text with
      | nil => cases hstart
      | cons c rest =>
        simp only [startsNumber, Bool.or_eq_true, Bool.and_eq_true] at hstart
        have hc : isNumberChar c = true := by
          simp only [isNumberChar, Bool.or_eq_true]
          exact hstart.imp_right And.left
        simp [hc]
    · exact fun c hc => List.all_eq_true.1 List.all_takeWhile c hc
    · exact hbad.1
    · exact hbad.2

theorem isLexeme_readName {c : Char} {rest : Text} {lexeme : Lexeme}
    (hstart : isNameStart c = true) (h : readName names offset (c :: rest) = .ok lexeme) :
    c :: rest = lexeme.text ++ lexeme.rest ∧ IsLexeme names offset lexeme.token lexeme.text := by
  have hname := isIdentifier_takeWhile hstart rest
  have htext := (List.takeWhile_append_dropWhile (p := isWordChar) (l := c :: rest)).symm
  unfold readName at h
  dsimp only at h
  split at h
  · cases h
  · rename_i hunknown
    have hknown : names ((c :: rest).takeWhile isWordChar) = true := by simpa using hunknown
    split at h
    · rename_i hdrop
      cases h
      rw [hdrop] at htext
      exact ⟨htext, .statement hname hknown⟩
    · rename_i d more hdrop
      rw [hdrop] at htext
      split at h
      · rename_i hd
        split at h
        · cases h
        · rename_i args after hclose
          cases h
          refine ⟨?_, .call hname hknown (quotedThrough_of_enclosed? hclose)⟩
          rw [beq_iff_eq.1 hd, eq_of_enclosed? hclose] at htext
          simpa using htext
      · cases h
        exact ⟨htext, .statement hname hknown⟩

theorem isLexeme_readSymbol {c : Char} {rest : Text} {lexeme : Lexeme}
    (h : readSymbol offset c rest = .ok lexeme) :
    c :: rest = lexeme.text ++ lexeme.rest ∧ IsLexeme names offset lexeme.token lexeme.text := by
  unfold readSymbol at h
  split at h
  · rename_i hc
    cases h
    rw [beq_iff_eq.1 hc]
    exact ⟨rfl, .openBracket⟩
  · split at h
    · rename_i hc
      cases h
      rw [beq_iff_eq.1 hc]
      exact ⟨rfl, .closeBracket⟩
    · split at h
      · rename_i op after hread
        cases h
        exact ⟨Operator.eq_of_read? hread, .operator op⟩
      · cases h

/-- A token that is read is spelled at the start of the text. -/
theorem isLexeme_read {text : Text} {lexeme : Lexeme} (h : read names offset text = .ok lexeme) :
    text = lexeme.text ++ lexeme.rest ∧ IsLexeme names offset lexeme.token lexeme.text := by
  cases text with
  | nil => cases h
  | cons c rest =>
    simp only [read] at h
    split at h
    · rename_i hc
      cases h
      refine ⟨?_, isLexeme_readRef .model rest⟩
      rw [beq_iff_eq.1 hc]
      exact congrArg _ List.takeWhile_append_dropWhile.symm
    · split at h
      · rename_i hc
        cases h
        refine ⟨?_, isLexeme_readRef .state rest⟩
        rw [beq_iff_eq.1 hc]
        exact congrArg _ List.takeWhile_append_dropWhile.symm
      · split at h
        · rename_i hc
          rw [beq_iff_eq.1 hc]
          exact isLexeme_readString h
        · split at h
          · rename_i hstart
            exact isLexeme_readNumber hstart h
          · split at h
            · rename_i hstart
              exact isLexeme_readName hstart h
            · exact isLexeme_readSymbol h

end Token

variable {names : Text → Bool}

/-- No literal reaches from a token into what follows it. -/
theorem IsLexeme.quotedThrough_eq {offset : Nat} {token : Token} {text : Text}
    (h : IsLexeme names offset token text) : quotedThrough false text = false := by
  have hmarks : ∀ {run : Text}, (∀ c ∈ run, IsMark c) → quotedThrough false run = false :=
    fun hrun => quotedThrough_eq_of_not_mem fun hmem => (hrun _ hmem).ne (by decide) rfl
  cases h with
  | ref side hpath =>
    have hside : quotedAfter false side.symbol = false := by cases side <;> rfl
    rw [quotedThrough_cons, hside]
    exact hmarks fun c hc => isMark_of_isPathChar (Path.isPathChar_of_mem_toText hpath c hc)
  | string hquote =>
    rw [List.cons_append, quotedThrough_cons, quotedThrough_append,
      quotedThrough_eq_of_not_mem hquote]
    rfl
  | number hdigits => exact hmarks hdigits.isMark
  | statement hname => exact quotedThrough_name hname false
  | call hname hknown hclosed =>
    rename_i name args
    have hargs : quotedThrough false (Symbol.openBracket :: args) = false := hclosed
    rw [quotedThrough_append, quotedThrough_append, quotedThrough_name hname, hargs]
    rfl
  | operator op => cases op <;> rfl
  | openBracket | closeBracket => rfl

/-- The argument list of a condensed call is condensed. -/
theorem condense_args_eq {name args : Text} (hname : isIdentifier name = true)
    (h : condense (name ++ Symbol.openBracket :: args ++ [Symbol.closeBracket]) =
      name ++ Symbol.openBracket :: args ++ [Symbol.closeBracket]) : condense args = args := by
  have hfront := (condense_go_append_eq_iff.1 h).1
  have hback := (condense_go_append_eq_iff.1 hfront).2
  rw [quotedThrough_name hname] at hback
  exact (List.cons.inj hback).2

/-- The pieces of a condensed argument list are condensed. -/
theorem condense_pieces_eq {n : Nesting} {text : Text}
    (h : condense.go n.quoted text = text) :
    condense.go n.quoted (pieces n text).1 = (pieces n text).1 ∧
      ∀ piece ∈ (pieces n text).2, condense piece = piece := by
  induction text generalizing n with
  | nil => exact ⟨rfl, by simp [pieces]⟩
  | cons c rest ih =>
    have hparts := condense_go_append_eq_iff.1 (show condense.go n.quoted ([c] ++ rest) = _ from h)
    have hrest : condense.go (n.step c).quoted rest = rest := by
      rw [Nesting.quoted_step]
      exact hparts.2
    obtain ⟨hfirst, hothers⟩ := ih hrest
    simp only [pieces]
    split
    · rename_i hcut
      simp only [Bool.and_eq_true, beq_iff_eq, Nesting.isOutermost, Bool.not_eq_true'] at hcut
      have hunquoted : (n.step c).quoted = false := by
        rw [Nesting.quoted_step, hcut.1, hcut.2.2]
        rfl
      rw [hunquoted] at hfirst
      exact ⟨rfl, List.forall_mem_cons.2 ⟨hfirst, hothers⟩⟩
    · refine ⟨?_, hothers⟩
      refine condense_go_append_eq_iff.2 ⟨hparts.1, ?_⟩
      rw [Nesting.quoted_step] at hfirst
      exact hfirst

/-- A blank that starts a text is loose. -/
theorem isBlank_eq_of_condense_eq {c : Char} {rest : Text}
    (h : condense (c :: rest) = c :: rest) : Text.isBlank c = false := by
  rw [Bool.eq_false_iff]
  intro hblank
  have hafter : quotedAfter false c = false := by
    simp [quotedAfter, ne_quote_of_isBlank hblank]
  have hkept : ¬isKept false c = true := by simp [isKept, hafter, hblank]
  have hlength := length_condense_go_le false rest
  rw [condense, condense.go, if_neg hkept, hafter] at h
  rw [h, List.length_cons] at hlength
  omega

/-- A condensed argument list is cut into condensed arguments. -/
theorem exists_pieces {args : Text} (h : condense args = args) :
    ∃ list, splitArguments args = placed 0 list ∧ joinCommas list = args ∧
      ∀ piece ∈ list, condense piece = piece := by
  cases args with
  | nil => exact ⟨[], rfl, rfl, by simp⟩
  | cons c rest =>
    have hblank : (c :: rest).all Text.isBlank = false := by
      rw [List.all_cons, isBlank_eq_of_condense_eq h, Bool.false_and]
    have hpieces := condense_pieces_eq (n := .outermost) h
    exact ⟨_, splitArguments_of_not_blank hblank, joinCommas_pieces _ _,
      List.forall_mem_cons.2 hpieces⟩

/-! ### Tokens of a text -/

/-- A text that is made up of tokens, each spelled without loose blanks. -/
inductive IsWritten (names : Text → Bool) : (offset : Nat) → Text → List PlacedToken → Prop
  | nil (offset : Nat) : IsWritten names offset [] []
  | cons {offset : Nat} {token : Token} {text rest : Text} {others : List PlacedToken}
    (htoken : IsLexeme names offset token text) (hcondensed : condense text = text)
    (hrest : IsWritten names (offset + Text.size text) rest others) :
    IsWritten names offset (text ++ rest) (⟨token, ⟨offset, offset + Text.size text⟩⟩ :: others)

/-- The tokens of a condensed text make it up. -/
theorem isWritten_of_tokenizeWithin {room : Nat} :
    ∀ {offset : Nat} {text : Text} {tokens : List PlacedToken},
      tokenizeWithin names room offset text = .ok tokens → condense text = text →
      IsWritten names offset text tokens ∧ tokens.length ≤ room := by
  induction room with
  | zero =>
    intro offset text tokens h _
    cases text with
    | nil =>
      cases h
      exact ⟨.nil offset, Nat.le_refl 0⟩
    | cons c rest => cases h
  | succ room ih =>
    intro offset text tokens h hcondensed
    cases text with
    | nil =>
      cases h
      exact ⟨.nil offset, Nat.zero_le _⟩
    | cons c rest =>
      cases hread : Token.read names offset (c :: rest) with
      | error fault => simp [tokenizeWithin, hread] at h
      | ok lexeme =>
        obtain ⟨htext, hlexeme⟩ := Token.isLexeme_read hread
        rw [tokenizeWithin_of_read hread] at h
        cases hothers : tokenizeWithin names room (offset + Text.size lexeme.text) lexeme.rest with
        | error fault =>
          rw [hothers] at h
          cases h
        | ok others =>
          rw [hothers] at h
          cases h
          rw [htext] at hcondensed ⊢
          obtain ⟨hfront, hback⟩ := condense_go_append_eq_iff.1 hcondensed
          rw [hlexeme.quotedThrough_eq] at hback
          obtain ⟨hwritten, hlength⟩ := ih hothers hback
          exact ⟨.cons hlexeme hfront hwritten, Nat.succ_le_succ hlength⟩

namespace IsWritten

variable {offset : Nat} {text : Text}

theorem of_append {front back : List PlacedToken}
    (h : IsWritten names offset text (front ++ back)) :
    ∃ a b, text = a ++ b ∧ IsWritten names offset a front ∧
      IsWritten names (offset + Text.size a) b back := by
  induction front generalizing offset text with
  | nil => exact ⟨[], text, rfl, .nil offset, h⟩
  | cons first others ih =>
    cases h with
    | cons htoken hcondensed hrest =>
      rename_i token lexeme rest
      obtain ⟨a, b, rfl, ha, hb⟩ := ih hrest
      refine ⟨lexeme ++ a, b, (List.append_assoc _ _ _).symm, .cons htoken hcondensed ha, ?_⟩
      rw [Text.size_append, ← Nat.add_assoc]
      exact hb

theorem of_cons {token : Token} {span : Span} {back : List PlacedToken}
    (h : IsWritten names offset text (⟨token, span⟩ :: back)) :
    ∃ lexeme rest, text = lexeme ++ rest ∧ span = ⟨offset, offset + Text.size lexeme⟩ ∧
      IsLexeme names offset token lexeme ∧ condense lexeme = lexeme ∧
      IsWritten names (offset + Text.size lexeme) rest back := by
  cases h with
  | cons htoken hcondensed hrest => exact ⟨_, _, rfl, rfl, htoken, hcondensed, hrest⟩

theorem of_singleton {token : Token} {span : Span}
    (h : IsWritten names offset text [⟨token, span⟩]) :
    span = ⟨offset, offset + Text.size text⟩ ∧ IsLexeme names offset token text ∧
      condense text = text := by
  obtain ⟨lexeme, rest, rfl, rfl, htoken, hcondensed, hrest⟩ := h.of_cons
  cases hrest
  rw [List.append_nil]
  exact ⟨rfl, htoken, hcondensed⟩

end IsWritten

/-! ### Phrases -/

/-- Whether a text at position `offset` is that of a phrase with a given tree and number of
tokens. -/
def IsPhrase (names : Text → Bool) (offset : Nat) (text : Text) (count : Nat) (e : Expr) : Prop :=
  ∃ p : Phrase, p.IsSpelled names ∧ p.text = text ∧ p.expr offset = e ∧ p.tokenCount = count

/-- Whether texts are those of phrases with given trees, none with too many tokens. The first text
is at position `offset`, and one separator stands between the texts. -/
def ArePhrases (names : Text → Bool) (offset : Nat) (list : List Text) (args : List Expr) : Prop :=
  ∃ ps : List Phrase, (∀ p ∈ ps, p.IsSpelled names) ∧ (∀ p ∈ ps, p.tokenCount ≤ maxTokens) ∧
    Phrase.texts ps = list ∧ Phrase.exprs offset ps = args

section

variable {offset : Nat} {text : Text} {span : Span}

theorem isPhrase_signed {op : Operator} (hsign : op.isSign = true) {sign digits : Span}
    {value : Float}
    (h : IsWritten names offset text [⟨.operator op, sign⟩, ⟨.number value, digits⟩]) :
    IsPhrase names offset text 2
      (.number ⟨sign.start, digits.stop⟩ (if op == .sub then -value else value)) := by
  obtain ⟨front, back, rfl, rfl, hop, -, hnumber⟩ := h.of_cons
  obtain ⟨rfl, hdigits, -⟩ := hnumber.of_singleton
  cases hop with
  | operator =>
    cases hdigits with
    | number hnumeral =>
      obtain ⟨s, rfl⟩ : ∃ s : Sign, s.operator = op := by
        cases op with
        | add => exact ⟨.plus, rfl⟩
        | sub => exact ⟨.minus, rfl⟩
        | _ => cases hsign
      refine ⟨.number (some s) back, .number (some s) hnumeral, rfl, ?_, rfl⟩
      simp only [Phrase.expr, Phrase.spanAt, Phrase.text, Phrase.value_some, Text.size_append,
        Nat.add_assoc]

/-- The pieces of the argument list of a condensed call. -/
theorem isPhrase_call {name args : Text} {argsAt : Nat} {es : List Expr}
    (h : IsWritten names offset text [⟨.call name args argsAt, span⟩])
    (hargs : ∀ list, splitArguments args = placed 0 list →
      (∀ piece ∈ list, condense piece = piece) → ArePhrases names argsAt list es) :
    IsPhrase names offset text 1 (.call span name es) := by
  obtain ⟨rfl, hlexeme, hcondensed⟩ := h.of_singleton
  cases hlexeme with
  | call hname hknown hclosed =>
    have hself := condense_args_eq hname hcondensed
    obtain ⟨list, hsplit, hjoin, hpieces⟩ := exists_pieces hself
    obtain ⟨ps, hps, hcounts, rfl, rfl⟩ := hargs list hsplit hpieces
    rw [← hjoin]
    exact ⟨.call name ps, .call hname hknown hps hcounts, rfl, rfl, rfl⟩

theorem isPhrase_group {opening closing : Span} {tokens : List PlacedToken} {e : Expr}
    (h : IsWritten names offset text
      (⟨.openBracket, opening⟩ :: tokens ++ [⟨.closeBracket, closing⟩]))
    (hinner : ∀ offset text, IsWritten names offset text tokens →
      IsPhrase names offset text tokens.length e) :
    IsPhrase names offset text (tokens.length + 2) (.group ⟨opening.start, closing.stop⟩ e) := by
  obtain ⟨front, middle, rfl, rfl, hopen, -, hrest⟩ := h.of_cons
  obtain ⟨body, back, rfl, hbody, hback⟩ := hrest.of_append
  obtain ⟨rfl, hclose, -⟩ := hback.of_singleton
  cases hopen
  cases hclose
  obtain ⟨p, hp, rfl, rfl, hcount⟩ := hinner _ _ hbody
  have hspan : Phrase.spanAt offset (.group p) = ⟨offset, offset + Text.size [Symbol.openBracket] +
      Text.size p.text + Text.size [Symbol.closeBracket]⟩ := by
    simp only [Phrase.spanAt, Phrase.text, Text.size_append, Text.size_cons, Text.size_nil,
      Nat.add_assoc, Nat.add_zero]
  refine ⟨.group p, .group hp, rfl, ?_, by rw [Phrase.tokenCount, hcount]⟩
  rw [Phrase.expr, hspan]
  rfl

theorem isPhrase_binary {op : Operator} {front back : List PlacedToken} {left right : Expr}
    (h : IsWritten names offset text (front ++ ⟨.operator op, span⟩ :: back))
    (hleft : ∀ offset text, IsWritten names offset text front →
      IsPhrase names offset text front.length left)
    (hright : ∀ offset text, IsWritten names offset text back →
      IsPhrase names offset text back.length right) :
    IsPhrase names offset text (front.length + 1 + back.length) (.binary op left right) := by
  obtain ⟨a, rest, rfl, ha, hrest⟩ := h.of_append
  obtain ⟨spelling, b, rfl, -, hop, -, hb⟩ := hrest.of_cons
  cases hop
  obtain ⟨p, hp, rfl, rfl, hpcount⟩ := hleft _ _ ha
  obtain ⟨q, hq, rfl, rfl, hqcount⟩ := hright _ _ hb
  refine ⟨.binary op p q, .binary op hp hq, ?_, rfl, ?_⟩
  · rw [Phrase.text, List.append_assoc]
  · rw [Phrase.tokenCount, hpcount, hqcount]

/-- The tokens of an argument stand where the argument does. -/
theorem arePhrases_cons {argsAt : Nat} {tokens : List PlacedToken} {e : Expr} {others : List Text}
    {es : List Expr} (hcondensed : condense text = text)
    (htokens : tokenize names 0 text = .ok tokens)
    (hfirst : ∀ offset text, IsWritten names offset text (tokens.map (·.shift argsAt)) →
      IsPhrase names offset text (tokens.map (·.shift argsAt)).length e)
    (hothers : ArePhrases names (argsAt + Text.size text + 1) others es) :
    ArePhrases names argsAt (text :: others) (e :: es) := by
  have hmoved : tokenize names argsAt text = .ok (tokens.map (·.shift argsAt)) :=
    tokenize_eq_ok_iff.2 ⟨tokens, htokens, rfl⟩
  obtain ⟨hwritten, hlength⟩ := isWritten_of_tokenizeWithin hmoved hcondensed
  obtain ⟨p, hp, rfl, rfl, hcount⟩ := hfirst argsAt text hwritten
  obtain ⟨ps, hps, hcounts, rfl, rfl⟩ := hothers
  rw [← hcount] at hlength
  exact ⟨p :: ps, List.forall_mem_cons.2 ⟨hp, hps⟩, List.forall_mem_cons.2 ⟨hlength, hcounts⟩,
    rfl, rfl⟩

end

mutual

/-- **Origin.** A tree over the tokens of a condensed text is the tree of a phrase with that
text. -/
theorem Yields.isPhrase {tokens : List PlacedToken} {e : Expr} :
    Yields names tokens e → ∀ offset text, IsWritten names offset text tokens →
      IsPhrase names offset text tokens.length e
  | .ref side path span => by
    intro offset text h
    obtain ⟨rfl, hlexeme, -⟩ := h.of_singleton
    cases hlexeme with
    | ref _ hpath => exact ⟨.ref side path, .ref side hpath, rfl, rfl, rfl⟩
  | .string content span => by
    intro offset text h
    obtain ⟨rfl, hlexeme, -⟩ := h.of_singleton
    cases hlexeme with
    | string hquote hforbidden =>
      exact ⟨.string content, .string hquote hforbidden, rfl, rfl, rfl⟩
  | .number value span => by
    intro offset text h
    obtain ⟨rfl, hlexeme, -⟩ := h.of_singleton
    cases hlexeme with
    | number hdigits => exact ⟨.number none _, .number none hdigits, rfl, rfl, rfl⟩
  | .statement name span => by
    intro offset text h
    obtain ⟨rfl, hlexeme, -⟩ := h.of_singleton
    cases hlexeme with
    | statement hname hknown => exact ⟨.statement _, .statement hname hknown, rfl, rfl, rfl⟩
  | .signed hsign sign value digits => by
    intro offset text h
    exact isPhrase_signed hsign h
  | .call name args argsAt span hargs => by
    intro offset text h
    exact isPhrase_call h fun list hsplit hcondensed => hargs.arePhrases 0 list hsplit hcondensed
  | .group opening closing hinner => by
    intro offset text h
    rw [List.length_append, List.length_cons]
    exact isPhrase_group h hinner.isPhrase
  | .binary op span hleft hright => by
    intro offset text h
    rw [List.length_append, List.length_cons, ← Nat.add_assoc, Nat.add_right_comm]
    exact isPhrase_binary h hleft.isPhrase hright.isPhrase

theorem YieldsAll.arePhrases {argsAt : Nat} {pieces : List (Nat × Text)} {args : List Expr} :
    YieldsAll names argsAt pieces args → ∀ start list, pieces = placed start list →
      (∀ piece ∈ list, condense piece = piece) → ArePhrases names (argsAt + start) list args
  | .nil argsAt => by
    intro start list hpieces _
    cases list with
    | nil => exact ⟨[], by simp, by simp, rfl, rfl⟩
    | cons => cases hpieces
  | .cons _ htokens h hothers => by
    intro start list hpieces hcondensed
    cases list with
    | nil => cases hpieces
    | cons first others =>
      cases hpieces
      obtain ⟨hfirst, hrest⟩ := List.forall_mem_cons.1 hcondensed
      have hnext := hothers.arePhrases _ others rfl hrest
      rw [← Nat.add_assoc, ← Nat.add_assoc] at hnext
      exact arePhrases_cons hfirst htokens h.isPhrase hnext

end

/-- **Reading back.** What is read from a text was written there: it is the tree of a readable
phrase, and the text of that phrase is the text without its blanks outside literals. -/
theorem exists_phrase_of_ofText {source : Text} {e : Expr}
    (h : Expr.ofText names source = .ok e) :
    ∃ p : Phrase, p.IsReadable names ∧ p.text = condense source ∧ p.expr 0 = e := by
  obtain ⟨tokens, htokens, hcomplete⟩ := fragment_eq_ok.1 h
  have haccepted := complete_eq_ok_iff.1 hcomplete
  obtain ⟨hwritten, hlength⟩ := isWritten_of_tokenizeWithin htokens (condense_condense source)
  obtain ⟨p, hp, htext, rfl, hcount⟩ := haccepted.yields.isPhrase 0 _ hwritten
  rw [← hcount] at hlength
  exact ⟨p, ⟨hp, haccepted.ordered, haccepted.nesting_le, hlength⟩, htext, rfl⟩

end Assertions
