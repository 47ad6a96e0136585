import Assertions.Assertion
import Assertions.Proofs.Parts
import Assertions.Proofs.Separators

/-!
# Loose blanks

A blank outside literals is loose: it is condensed away, and a text is read the same with and
without it. Whether a blank is loose depends on the quotes in front of it only. Behind an even
number of them no literal is open, so all blanks that are put in there are loose
(`condense_append_blanks`).

Condensing keeps the literals with their quotes (`literalPart_condense`), and what it has kept once
it keeps again. An assertion is condensed as a whole. Its guard and its condition are cut out of the
condensed text and condensed once more, each by itself. This changes nothing in them, because each
cut is made where no literal is open, whatever is open at the end of the text
(`isTightPiece_of_splitOutside?`).
-/

namespace Assertions

/-! ### Blanks behind whole literals -/

/-- A literal is open behind a text if its quotes are odd in number, or even where one was open
before it. -/
theorem quotedThrough_eq_bne (quoted : Bool) (text : Text) :
    quotedThrough quoted text = (quoted != (text.count Symbol.quote % 2 == 1)) := by
  induction text generalizing quoted with
  | nil => cases quoted <;> rfl
  | cons c rest ih =>
    rw [quotedThrough_cons, ih]
    by_cases hc : c = Symbol.quote
    · subst hc
      have hparity : (List.count Symbol.quote rest + 1) % 2 =
          1 - List.count Symbol.quote rest % 2 := by omega
      rw [List.count_cons_self, hparity]
      rcases Nat.mod_two_eq_zero_or_one (List.count Symbol.quote rest) with h | h <;>
        rw [h] <;> cases quoted <;> rfl
    · have hafter : quotedAfter quoted c = quoted := by simp [quotedAfter, hc]
      rw [List.count_cons_of_ne (by simpa using hc), hafter]

/-- Behind an even number of quotes no literal is open, and behind an odd one there is. -/
theorem quotedThrough_eq_false_iff {text : Text} :
    quotedThrough false text = false ↔ text.count Symbol.quote % 2 = 0 := by
  rw [quotedThrough_eq_bne]
  rcases Nat.mod_two_eq_zero_or_one (text.count Symbol.quote) with h | h <;> rw [h] <;> decide

/-- Nothing is left of blanks outside literals. -/
theorem condense_go_blanks {blanks : Text} (h : ∀ c ∈ blanks, Text.isBlank c = true) :
    condense.go false blanks = [] ∧ quotedThrough false blanks = false := by
  induction blanks with
  | nil => exact ⟨rfl, rfl⟩
  | cons c rest ih =>
    obtain ⟨hc, hrest⟩ := List.forall_mem_cons.1 h
    have hafter : quotedAfter false c = false := by simp [quotedAfter, ne_quote_of_isBlank hc]
    have hkept : ¬isKept false c = true := by simp [isKept, hafter, hc]
    rw [condense.go, if_neg hkept, quotedThrough_cons, hafter]
    exact ih hrest

/-- Blanks behind whole literals are condensed away. -/
theorem condense_append_blanks {before blanks : Text}
    (hbefore : before.count Symbol.quote % 2 = 0) (hblanks : ∀ c ∈ blanks, Text.isBlank c = true)
    (after : Text) : condense (before ++ blanks ++ after) = condense (before ++ after) := by
  obtain ⟨hnone, hquoted⟩ := condense_go_blanks hblanks
  have hopen := quotedThrough_eq_false_iff.2 hbefore
  show condense.go false (before ++ blanks ++ after) = condense.go false (before ++ after)
  rw [condense_go_append, condense_go_append false before blanks, condense_go_append false before,
    quotedThrough_append, hopen, hnone, hquoted, List.append_nil]

/-! ### Texts that condense to the same text -/

section

variable {source source' : Text}

/-- Only the condensed text is read. -/
theorem ofText_congr (h : condense source = condense source') (names : Text → Bool) :
    Expr.ofText names source = Expr.ofText names source' := by
  rw [Expr.ofText, Expr.ofText, h]

theorem lex_congr (h : condense source = condense source') (names : Text → Bool) :
    lex names source = lex names source' := by
  rw [lex_eq_map, lex_eq_map, h]

theorem Formula.result_compile_congr (h : condense source = condense source')
    (functions : Repertoire) :
    (Formula.compile functions source).result =
      (Formula.compile functions source').result.map fun formula => { formula with source } := by
  rw [Formula.compile, Formula.compile, Staged.result_andThen, Staged.result_andThen,
    Expr.result_compile, Expr.result_compile, ofText_congr h]
  cases Expr.ofText functions.contains source' <;> rfl

/-- An assertion differs by its source from that of another text, if these are the same without
their loose blanks. -/
theorem Assertion.result_compile_congr (h : condense source = condense source')
    (functions : Repertoire) :
    (Assertion.compile functions source).result =
      (Assertion.compile functions source').result.map fun assertion =>
        { assertion with source } := by
  cases hsplit : Literal.splitOutside? Symbol.colon (condense source') with
  | none =>
    have hsource := result_compile_of_none functions (h ▸ hsplit)
    rw [result_compile_of_none functions hsplit, hsource, h]
    rfl
  | some cut =>
    obtain ⟨before, after⟩ := cut
    rw [result_compile_of_some functions hsplit, result_compile_of_some functions (h ▸ hsplit)]
    cases (Activation.compile functions before).result with
    | error refusal => rfl
    | ok activation =>
      show Except.map _ _ = Except.map _ (Except.map _ _)
      cases (Expr.compile functions (Text.size before + 1) after).result <;> rfl

end

/-! ### What condensing keeps -/

/-- The characters of a text that lie in its literals, and the quotes around them, where the text
starts inside a literal or not. A literal that is never closed reaches to the end. -/
def literalPart (quoted : Bool) : Text → Text
  | [] => []
  | c :: rest =>
    if c == Symbol.quote then c :: literalPart (!quoted) rest
    else if quoted then c :: literalPart true rest
    else literalPart false rest

theorem literalPart_condense_go (quoted : Bool) (text : Text) :
    literalPart quoted (condense.go quoted text) = literalPart quoted text := by
  induction text generalizing quoted with
  | nil => rfl
  | cons c rest ih =>
    rw [condense.go]
    by_cases hc : c = Symbol.quote
    · subst hc
      have hkept : isKept quoted Symbol.quote = true := by cases quoted <;> rfl
      show literalPart quoted (if isKept quoted Symbol.quote = true then
          Symbol.quote :: condense.go (!quoted) rest else _) =
        Symbol.quote :: literalPart (!quoted) rest
      rw [if_pos hkept, ← ih]
      rfl
    · have hquote : ¬(c == Symbol.quote) = true := by simpa using hc
      have hafter : quotedAfter quoted c = quoted := if_neg hquote
      rw [hafter]
      cases quoted with
      | true =>
        have hkept : isKept true c = true := by rw [isKept, hafter, Bool.true_or]
        rw [if_pos hkept, literalPart, literalPart, if_neg hquote, if_neg hquote, if_pos rfl,
          if_pos rfl, ih]
      | false =>
        have hlast : literalPart false (c :: rest) = literalPart false rest := by
          rw [literalPart, if_neg hquote, if_neg Bool.false_ne_true]
        rw [hlast, ← ih]
        split
        · rw [literalPart, if_neg hquote, if_neg Bool.false_ne_true]
        · rfl

/-- All literals are kept, and all quotes. -/
theorem literalPart_condense (text : Text) :
    literalPart false (condense text) = literalPart false text :=
  literalPart_condense_go false text

theorem condense_go_sublist (quoted : Bool) (text : Text) :
    (condense.go quoted text).Sublist text := by
  induction text generalizing quoted with
  | nil => exact .slnil
  | cons c rest ih =>
    rw [condense.go]
    split
    · exact (ih _).cons_cons c
    · exact (ih _).cons c

/-! ### Pieces of condensed text -/

/-- Whether a piece stands at a position of a text and has nothing to lose by condensing. So a span
of what it is condensed to marks the same in the text, once it is moved there. -/
structure IsTightPiece (piece : Text) (start : Nat) (whole : Text) : Prop where
  condense_eq : condense piece = piece
  standsAt : StandsAt piece start whole
  text?_shift : ∀ (span : Span) (marked : Text), span.text? (condense piece) = some marked →
    (span.shift start).text? whole = some marked

/-- A piece has nothing to lose if no literal is open in front of it. -/
theorem isTightPiece_of_append {front piece back whole : Text} (hwhole : condense whole = whole)
    (heq : whole = front ++ piece ++ back) (hfront : quotedThrough false front = false) :
    IsTightPiece piece (Text.size front) whole := by
  have hpiece : condense piece = piece := by
    rw [heq] at hwhole
    have hparts := condense_go_append_eq_iff.1 (condense_go_append_eq_iff.1 hwhole).1
    rw [hfront] at hparts
    exact hparts.2
  have hstands : StandsAt piece (Text.size front) whole := ⟨front, back, heq, rfl⟩
  refine ⟨hpiece, hstands, ?_⟩
  intro span marked hmarked
  rw [hpiece] at hmarked
  obtain ⟨a, b, hab, hstart, hstop⟩ := Text.exists_of_slice? hmarked
  have hinside : StandsAt marked span.start piece := ⟨a, b, hab, hstart⟩
  have hspan : span.shift (Text.size front) = ⟨Text.size front + span.start,
      Text.size front + span.start + Text.size marked⟩ := by
    show Span.mk (span.start + Text.size front) (span.stop + Text.size front) = _
    congr 1 <;> omega
  rw [hspan]
  exact (hinside.trans hstands).text?

variable {source before after : Text}

/-- The texts before and after the separator of an assertion have nothing to lose. -/
theorem isTightPiece_of_splitOutside?
    (h : Literal.splitOutside? Symbol.colon (condense source) = some (before, after)) :
    IsTightPiece before 0 (condense source) ∧
      IsTightPiece after (Text.size before + 1) (condense source) := by
  have heq := Literal.eq_of_splitOutside?_go h
  have hbefore : quotedThrough false before = false := Literal.quotedThrough_of_splitOutside?_go h
  constructor
  · have hwhole : condense source = [] ++ before ++ Symbol.colon :: after := heq
    exact isTightPiece_of_append (condense_condense source) hwhole rfl
  · have hfront : quotedThrough false (before ++ [Symbol.colon]) = false := by
      rw [quotedThrough_append, hbefore]
      rfl
    have hwhole : condense source = before ++ [Symbol.colon] ++ after ++ [] := by simpa using heq
    have hpiece := isTightPiece_of_append (condense_condense source) hwhole hfront
    rwa [Text.size_append] at hpiece

/-- The text between the brackets of a guard has nothing to lose. -/
theorem isTightPiece_guard {rest inside later : Text}
    (h : Literal.splitOutside? Symbol.colon (condense source) = some (before, after))
    (hrest : Text.dropWord? (Symbol.when ++ [Symbol.openBracket]) before = some rest)
    (hinside : enclosed? rest = some (inside, later)) :
    IsTightPiece inside (Text.size Symbol.when + 1) (condense source) := by
  have heq := Literal.eq_of_splitOutside?_go h
  rw [Text.eq_of_dropWord? hrest, eq_of_enclosed? hinside] at heq
  have hwhole : condense source = Symbol.when ++ [Symbol.openBracket] ++ inside ++
      (Symbol.closeBracket :: later ++ Symbol.colon :: after) := by simpa using heq
  exact isTightPiece_of_append (condense_condense source) hwhole rfl

/-- **Loose blanks.** Blanks that are put in behind an even number of quotes change nothing but the
source that a formula and an assertion remember: the tokens, the trees, the faults and all their
spans are the same. Condensing takes characters out of a text, but no quote and nothing between
quotes, and it takes nothing out of a condensed text. Nor does it take anything out of the pieces
that an assertion is cut into, which stand in the condensed assertion where their spans count
from. -/
theorem loose_blanks_insignificant :
    (∀ before blanks after : Text, before.count Symbol.quote % 2 = 0 →
      (∀ c ∈ blanks, Text.isBlank c = true) →
      condense (before ++ blanks ++ after) = condense (before ++ after) ∧
      (∀ names, lex names (before ++ blanks ++ after) = lex names (before ++ after) ∧
        Expr.ofText names (before ++ blanks ++ after) = Expr.ofText names (before ++ after)) ∧
      ∀ functions,
        (Formula.compile functions (before ++ blanks ++ after)).result =
          ((Formula.compile functions (before ++ after)).result.map fun formula =>
            { formula with source := before ++ blanks ++ after }) ∧
        (Assertion.compile functions (before ++ blanks ++ after)).result =
          (Assertion.compile functions (before ++ after)).result.map fun assertion =>
            { assertion with source := before ++ blanks ++ after }) ∧
    (∀ text : Text, condense (condense text) = condense text ∧ (condense text).Sublist text ∧
      literalPart false (condense text) = literalPart false text) ∧
    ∀ source before after,
      Literal.splitOutside? Symbol.colon (condense source) = some (before, after) →
      IsTightPiece before 0 (condense source) ∧
      IsTightPiece after (Text.size before + 1) (condense source) ∧
      ∀ rest inside later,
        Text.dropWord? (Symbol.when ++ [Symbol.openBracket]) before = some rest →
        enclosed? rest = some (inside, later) →
        IsTightPiece inside (Text.size Symbol.when + 1) (condense source) := by
  refine ⟨?_, ?_, ?_⟩
  · intro before blanks after hbefore hblanks
    have h := condense_append_blanks hbefore hblanks after
    refine ⟨h, ?_, ?_⟩
    · intro names
      exact ⟨lex_congr h names, ofText_congr h names⟩
    · intro functions
      exact ⟨Formula.result_compile_congr h functions, Assertion.result_compile_congr h functions⟩
  · intro text
    exact ⟨condense_condense text, condense_go_sublist false text, literalPart_condense text⟩
  · intro source before after h
    obtain ⟨hbefore, hafter⟩ := isTightPiece_of_splitOutside? h
    refine ⟨hbefore, hafter, ?_⟩
    intro rest inside later hrest hinside
    exact isTightPiece_guard h hrest hinside

/-- Blanks between a guard with a literal in it and a condition whose literal is not closed. -/
theorem loose_blanks_open_literal :
    (['W', 'H', 'E', 'N', '(', '\x27', ' ', '\x27', ')'] : Text).count Symbol.quote % 2 = 0 ∧
    (∀ c ∈ ([' ', '\u3000'] : Text), Text.isBlank c = true) ∧
    condense (['W', 'H', 'E', 'N', '(', '\x27', ' ', '\x27', ')'] ++ [' ', '\u3000'] ++
      [':', '\x27', ' ']) =
        condense (['W', 'H', 'E', 'N', '(', '\x27', ' ', '\x27', ')'] ++ [':', '\x27', ' ']) ∧
    IsTightPiece ['\x27', ' ', '\x27'] 5
      (condense (['W', 'H', 'E', 'N', '(', '\x27', ' ', '\x27', ')'] ++ [':', '\x27', ' '])) ∧
    IsTightPiece ['\x27', ' '] 10
      (condense (['W', 'H', 'E', 'N', '(', '\x27', ' ', '\x27', ')'] ++ [':', '\x27', ' '])) := by
  obtain ⟨hblanks, -, hpieces⟩ := loose_blanks_insignificant
  have heven : (['W', 'H', 'E', 'N', '(', '\x27', ' ', '\x27', ')'] : Text).count
      Symbol.quote % 2 = 0 := by decide
  have hblank : ∀ c ∈ ([' ', '\u3000'] : Text), Text.isBlank c = true :=
    List.forall_mem_cons.2 ⟨rfl, List.forall_mem_singleton.2 rfl⟩
  have hsplit : Literal.splitOutside? Symbol.colon
      (condense (['W', 'H', 'E', 'N', '(', '\x27', ' ', '\x27', ')'] ++ [':', '\x27', ' '])) =
        some (['W', 'H', 'E', 'N', '(', '\x27', ' ', '\x27', ')'], ['\x27', ' ']) := rfl
  obtain ⟨-, hafter, hguard⟩ := hpieces _ _ _ hsplit
  exact ⟨heven, hblank, (hblanks _ _ _ heven hblank).1, hguard _ _ _ rfl rfl, hafter⟩

end Assertions
