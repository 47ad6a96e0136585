import Assertions.Token.Reading
import Assertions.Proofs.Brackets

/-!
# How names, paths and numbers are spelled

The characters of names, paths and numbers are neither blanks nor symbols, so condensing and the
reader of brackets pass over them.

* `IsMark`: what all these characters have in common;
* `SelfContained`: the texts that condensing and the reader of brackets pass over in one step;
* `Path.IsPlain`: the paths that a reference can have. They are those that are read back from their
  text;
* `IsNumeral`: digits, or a fraction with or without digits before its dot.
-/

namespace Assertions

/-! ### Classes of characters -/

/-- A character between the dot and the last letter. Blanks, quotes, brackets and commas are
outside. -/
def IsMark (c : Char) : Prop := Symbol.dot.toNat ≤ c.toNat ∧ c.toNat ≤ 'z'.toNat

theorem IsMark.ne {c s : Char} (h : IsMark c) (hs : s.toNat < Symbol.dot.toNat) : c ≠ s := by
  intro heq
  rw [heq] at h
  exact absurd h.1 (Nat.not_le_of_gt hs)

theorem IsMark.not_isBlank {c : Char} (h : IsMark c) : Text.isBlank c = false := by
  obtain ⟨hlow, hhigh⟩ := h
  have hdot : Symbol.dot.toNat = 46 := rfl
  have hz : 'z'.toNat = 122 := rfl
  simp [Text.isBlank, Text.blankRanges]
  omega

theorem IsMark.isPassive {c : Char} (h : IsMark c) : Nesting.IsPassive c :=
  ⟨h.ne (by decide), h.ne (by decide), h.ne (by decide)⟩

theorem toNat_of_isDigit {c : Char} (h : c.isDigit = true) : 48 ≤ c.toNat ∧ c.toNat ≤ 57 := by
  simpa [Char.isDigit, UInt32.le_iff_toNat_le] using h

theorem toNat_of_isAlpha {c : Char} (h : c.isAlpha = true) :
    (65 ≤ c.toNat ∧ c.toNat ≤ 90) ∨ (97 ≤ c.toNat ∧ c.toNat ≤ 122) := by
  have hcases : (c.isUpper || c.isLower) = true := h
  rcases Bool.or_eq_true_iff.1 hcases with hupper | hlower
  · have hrange : decide ('A'.val ≤ c.val ∧ c.val ≤ 'Z'.val) = true := hupper
    simp only [decide_eq_true_eq, UInt32.le_iff_toNat_le] at hrange
    exact .inl hrange
  · have hrange : (decide ('a'.val ≤ c.val) && decide (c.val ≤ 'z'.val)) = true := hlower
    simp only [Bool.and_eq_true, decide_eq_true_eq, UInt32.le_iff_toNat_le] at hrange
    exact .inr hrange

theorem isMark_of_isDigit {c : Char} (h : c.isDigit = true) : IsMark c := by
  have hrange := toNat_of_isDigit h
  have hdot : Symbol.dot.toNat = 46 := rfl
  have hz : 'z'.toNat = 122 := rfl
  exact ⟨by omega, by omega⟩

theorem isMark_of_isAlpha {c : Char} (h : c.isAlpha = true) : IsMark c := by
  have hrange := toNat_of_isAlpha h
  have hdot : Symbol.dot.toNat = 46 := rfl
  have hz : 'z'.toNat = 122 := rfl
  exact ⟨by omega, by omega⟩

theorem isMark_of_isWordChar {c : Char} (h : isWordChar c = true) : IsMark c := by
  simp only [isWordChar, Char.isAlphanum, Bool.or_eq_true, beq_iff_eq] at h
  rcases h with (halpha | hdigit) | rfl
  · exact isMark_of_isAlpha halpha
  · exact isMark_of_isDigit hdigit
  · exact ⟨by decide, by decide⟩

theorem isMark_dot : IsMark Symbol.dot := ⟨Nat.le_refl _, by decide⟩

theorem isMark_of_isPathChar {c : Char} (h : Token.isPathChar c = true) : IsMark c := by
  simp only [Token.isPathChar, Bool.or_eq_true, beq_iff_eq] at h
  rcases h with hword | rfl
  · exact isMark_of_isWordChar hword
  · exact isMark_dot

theorem isMark_of_isNumberChar {c : Char} (h : Token.isNumberChar c = true) : IsMark c := by
  simp only [Token.isNumberChar, Bool.or_eq_true, beq_iff_eq] at h
  rcases h with hdigit | rfl
  · exact isMark_of_isDigit hdigit
  · exact isMark_dot

theorem dot_not_isWordChar : isWordChar Symbol.dot = false := by decide

theorem isWordChar_of_isDigit {c : Char} (h : c.isDigit = true) : isWordChar c = true := by
  simp [isWordChar, Char.isAlphanum, h]

/-- No name starts with a digit. -/
theorem not_isDigit_of_isNameStart {c : Char} (h : isNameStart c = true) : c.isDigit = false := by
  rw [Bool.eq_false_iff]
  intro hdigit
  have hrange := toNat_of_isDigit hdigit
  simp only [isNameStart, Bool.or_eq_true, beq_iff_eq] at h
  rcases h with halpha | rfl
  · have := toNat_of_isAlpha halpha
    omega
  · exact absurd hdigit (by decide)

/-! ### Names -/

section

variable {name : Text}

theorem isWordChar_of_mem_name (h : isIdentifier name = true) {c : Char} (hc : c ∈ name) :
    isWordChar c = true :=
  List.all_eq_true.1 (all_isWordChar_of_isIdentifier name h) c hc

theorem isMark_of_mem_name (h : isIdentifier name = true) {c : Char} (hc : c ∈ name) : IsMark c :=
  isMark_of_isWordChar (isWordChar_of_mem_name h hc)

/-- The word characters at the start of a text are a name if the first one can start a name. -/
theorem isIdentifier_takeWhile {c : Char} (hc : isNameStart c = true) (rest : Text) :
    isIdentifier ((c :: rest).takeWhile isWordChar) = true := by
  rw [List.takeWhile_cons, if_pos (isWordChar_of_isNameStart c hc), isIdentifier, hc,
    Bool.true_and, List.all_eq_true]
  exact fun d hd => List.all_eq_true.1 List.all_takeWhile d hd

/-- There are no quotes in a name, so it opens and closes no literal. -/
theorem quotedThrough_name (h : isIdentifier name = true) (quoted : Bool) :
    quotedThrough quoted name = quoted :=
  quotedThrough_eq_of_not_mem fun hquote => (isMark_of_mem_name h hquote).ne (by decide) rfl

end

/-! ### Self-contained texts -/

/-- A text that stays in one piece wherever it stands: its brackets and literals close, it has no
comma by itself, and no blank outside its literals. -/
structure SelfContained (text : Text) : Prop where
  balanced : Balanced text
  uncut : Uncut text
  tight : Tight text

namespace SelfContained

variable {a b text : Text}

theorem append (ha : SelfContained a) (hb : SelfContained b) : SelfContained (a ++ b) :=
  ⟨ha.balanced.append hb.balanced, ha.uncut.append ha.balanced hb.uncut, ha.tight.append hb.tight⟩

/-- A text of characters that mean nothing to readers of brackets. -/
theorem of_plain (h : ∀ c ∈ text, Nesting.IsPassive c ∧ c ≠ Symbol.comma ∧
    Text.isBlank c = false) : SelfContained text where
  balanced := balanced_of_passive fun c hc => (h c hc).1
  uncut := uncut_of_passive (fun c hc => (h c hc).1) fun hcomma => (h _ hcomma).2.1 rfl
  tight := tight_of_forall fun c hc => ⟨(h c hc).2.2, (h c hc).1.1⟩

theorem of_marks (h : ∀ c ∈ text, IsMark c) : SelfContained text :=
  of_plain fun c hc => ⟨(h c hc).isPassive, (h c hc).ne (by decide), (h c hc).not_isBlank⟩

theorem of_isIdentifier (h : isIdentifier text = true) : SelfContained text :=
  of_marks fun _ => isMark_of_mem_name h

theorem literal {content : Text} (h : Symbol.quote ∉ content) :
    SelfContained (Symbol.quote :: content ++ [Symbol.quote]) :=
  ⟨balanced_literal h, uncut_literal h, tight_literal h⟩

theorem tight_joinCommas {list : List Text} (h : ∀ text ∈ list, SelfContained text) :
    Tight (joinCommas list) := by
  have hcomma : Tight [Symbol.comma] := tight_of_forall (List.forall_mem_singleton.2 (by decide))
  induction list with
  | nil => exact fun _ => rfl
  | cons first others ih =>
    obtain ⟨hfirst, hothers⟩ := List.forall_mem_cons.1 h
    cases others with
    | nil => exact hfirst.tight
    | cons next rest =>
      rw [joinCommas_cons_cons]
      exact hfirst.tight.append (hcomma.append (ih hothers))

/-- Brackets around texts with commas between them. -/
theorem bracketed {list : List Text} (h : ∀ text ∈ list, SelfContained text) :
    SelfContained (Symbol.openBracket :: joinCommas list ++ [Symbol.closeBracket]) := by
  have hopen : Tight [Symbol.openBracket] :=
    tight_of_forall (List.forall_mem_singleton.2 (by decide))
  have hclose : Tight [Symbol.closeBracket] :=
    tight_of_forall (List.forall_mem_singleton.2 (by decide))
  have hbalanced := balanced_joinCommas fun text htext => (h text htext).balanced
  refine ⟨hbalanced.bracketed, uncut_bracketed ?_, ?_⟩
  · exact shields_joinCommas (fun text htext => (h text htext).balanced)
      fun text htext => (h text htext).uncut
  · exact hopen.append ((tight_joinCommas h).append hclose)

end SelfContained

theorem Side.selfContained_symbol (side : Side) : SelfContained [side.symbol] := by
  refine SelfContained.of_plain (List.forall_mem_singleton.2 ?_)
  unfold Nesting.IsPassive
  cases side <;> decide

theorem Operator.selfContained_spelling (op : Operator) : SelfContained op.spelling := by
  apply SelfContained.of_plain
  unfold Nesting.IsPassive
  cases op <;>
    simp only [Operator.spelling, List.mem_cons, List.not_mem_nil, or_false, forall_eq_or_imp,
      forall_eq] <;>
    decide

/-! ### Paths -/

namespace Path

/-- A path whose segments are made of word characters. The path of one empty segment is left out,
because its text is that of the root. -/
structure IsPlain (path : Path) : Prop where
  word : ∀ segment ∈ path.segments, ∀ c ∈ segment, isWordChar c = true
  ne_empty : path.segments ≠ [[]]

/-- A text without dots is one segment, up to the first dot after it. -/
theorem splitDots_append {segment : Text} (h : Symbol.dot ∉ segment) (rest : Text) :
    splitDots (segment ++ rest) = (segment ++ (splitDots rest).1, (splitDots rest).2) := by
  induction segment with
  | nil => rfl
  | cons c tail ih =>
    simp only [List.mem_cons, not_or] at h
    have hc : ¬(c == Symbol.dot) = true := by simpa using Ne.symm h.1
    simp only [List.cons_append, splitDots, ih h.2, if_neg hc]

/-- Segments without dots are found again between the dots. -/
theorem splitDots_joinDots {first : Text} {others : List Text}
    (h : ∀ segment ∈ first :: others, Symbol.dot ∉ segment) :
    splitDots (joinDots (first :: others)) = (first, others) := by
  induction others generalizing first with
  | nil =>
    have hsplit := splitDots_append (h first List.mem_cons_self) []
    rw [List.append_nil] at hsplit
    exact hsplit.trans (by simp [splitDots])
  | cons next rest ih =>
    obtain ⟨hfirst, hothers⟩ := List.forall_mem_cons.1 h
    show splitDots (first ++ Symbol.dot :: joinDots (next :: rest)) = (first, next :: rest)
    rw [splitDots_append hfirst, splitDots, ih hothers]
    simp

/-- Segments without dots are read back from their text, unless there is one and it is empty. -/
theorem ofText_joinDots {segments : List Text} (hdots : ∀ segment ∈ segments, Symbol.dot ∉ segment)
    (hne : segments ≠ [[]]) : ofText (joinDots segments) = ⟨segments⟩ := by
  cases segments with
  | nil => rfl
  | cons first others =>
    have hempty : (joinDots (first :: others)).isEmpty = false := by
      cases others with
      | nil =>
        have hfirst : first ≠ [] := fun heq => hne (by simp [heq])
        simpa [joinDots] using hfirst
      | cons next rest => simp [joinDots]
    rw [ofText, hempty, splitDots_joinDots hdots]
    rfl

/-- A plain path is read back from its text. -/
theorem ofText_toText {path : Path} (h : path.IsPlain) : ofText path.toText = path := by
  refine ofText_joinDots ?_ h.ne_empty
  intro segment hsegment hdot
  have hword := h.word segment hsegment _ hdot
  rw [dot_not_isWordChar] at hword
  cases hword

theorem joinDots_cons_char (c : Char) (segment : Text) (others : List Text) :
    joinDots ((c :: segment) :: others) = c :: joinDots (segment :: others) := by
  cases others <;> rfl

/-- The segments of a text with dots between them are that text. -/
theorem joinDots_splitDots (text : Text) :
    joinDots ((splitDots text).1 :: (splitDots text).2) = text := by
  induction text with
  | nil => rfl
  | cons c rest ih =>
    simp only [splitDots]
    split
    · rename_i hc
      show [] ++ Symbol.dot :: joinDots ((splitDots rest).1 :: (splitDots rest).2) = c :: rest
      rw [ih, List.nil_append, beq_iff_eq.1 hc]
    · rw [joinDots_cons_char, ih]

/-- The text of the path of a text is that text. -/
theorem toText_ofText (text : Text) : (ofText text).toText = text := by
  unfold ofText
  split
  · rename_i hempty
    rw [List.isEmpty_iff.1 hempty]
    rfl
  · exact joinDots_splitDots text

/-- The characters of the segments of a text are those of the text, without the dots. -/
theorem mem_of_mem_splitDots {text segment : Text} {c : Char}
    (hsegment : segment ∈ (splitDots text).1 :: (splitDots text).2) (hc : c ∈ segment) :
    c ∈ text ∧ c ≠ Symbol.dot := by
  induction text generalizing segment with
  | nil =>
    simp only [splitDots, List.mem_singleton] at hsegment
    rw [hsegment] at hc
    cases hc
  | cons d rest ih =>
    simp only [splitDots] at hsegment
    split at hsegment
    · rcases List.mem_cons.1 hsegment with rfl | hmem
      · cases hc
      · have h := ih hmem hc
        exact ⟨List.mem_cons_of_mem d h.1, h.2⟩
    · rename_i hd
      rcases List.mem_cons.1 hsegment with rfl | hmem
      · rcases List.mem_cons.1 hc with rfl | hc
        · exact ⟨List.mem_cons_self, fun heq => hd (by simp [heq])⟩
        · have h := ih List.mem_cons_self hc
          exact ⟨List.mem_cons_of_mem d h.1, h.2⟩
      · have h := ih (List.mem_cons_of_mem _ hmem) hc
        exact ⟨List.mem_cons_of_mem d h.1, h.2⟩

/-- The segments of the path of a text hold characters of the text, and no dots. -/
theorem mem_of_mem_ofText {text segment : Text} {c : Char}
    (hsegment : segment ∈ (ofText text).segments) (hc : c ∈ segment) :
    c ∈ text ∧ c ≠ Symbol.dot := by
  unfold ofText at hsegment
  split at hsegment
  · exact (List.not_mem_nil hsegment).elim
  · exact mem_of_mem_splitDots hsegment hc

/-- No text denotes the path of one empty segment. -/
theorem segments_ofText_ne (text : Text) : (ofText text).segments ≠ [[]] := by
  intro hsegments
  have htext := toText_ofText text
  rw [toText, hsegments] at htext
  rw [← htext] at hsegments
  cases hsegments

/-- A text of path characters denotes a plain path. -/
theorem isPlain_ofText {text : Text} (h : ∀ c ∈ text, Token.isPathChar c = true) :
    (ofText text).IsPlain := by
  refine ⟨?_, segments_ofText_ne text⟩
  intro segment hsegment c hc
  obtain ⟨hmem, hdot⟩ := mem_of_mem_ofText hsegment hc
  have hpath := h c hmem
  simp only [Token.isPathChar, Bool.or_eq_true, beq_iff_eq] at hpath
  exact hpath.resolve_right hdot

/-- The text of a plain path is made of path characters. -/
theorem isPathChar_of_mem_toText {path : Path} (h : path.IsPlain) :
    ∀ c ∈ path.toText, Token.isPathChar c = true := by
  obtain ⟨segments⟩ := path
  have hwords := h.word
  show ∀ c ∈ joinDots segments, Token.isPathChar c = true
  have hword : ∀ segment ∈ segments, ∀ c ∈ segment, Token.isPathChar c = true := by
    intro segment hsegment c hc
    simp [Token.isPathChar, hwords segment hsegment c hc]
  clear h hwords
  induction segments with
  | nil => exact fun c hc => (List.not_mem_nil hc).elim
  | cons first others ih =>
    obtain ⟨hfirst, hothers⟩ := List.forall_mem_cons.1 hword
    cases others with
    | nil => exact hfirst
    | cons next rest =>
      intro c hc
      rcases List.mem_append.1 hc with hc | hc
      · exact hfirst c hc
      · rcases List.mem_cons.1 hc with rfl | hc
        · decide
        · exact ih hothers c hc

end Path

/-! ### Numerals -/

/-- A numeral: one digit or more, and before them possibly a dot with any number of digits before
it. -/
def IsNumeral (text : Text) : Prop :=
  ∃ whole digits : Text, digits ≠ [] ∧ (∀ c ∈ whole, c.isDigit = true) ∧
    (∀ c ∈ digits, c.isDigit = true) ∧ (text = digits ∨ text = whole ++ Symbol.dot :: digits)

/-- Digits and dots are a numeral if there is one dot at most, and not at the end. -/
theorem isNumeral_of_count_le_one {text : Text} (hne : text ≠ [])
    (hchars : ∀ c ∈ text, Token.isNumberChar c = true) (hlast : text.getLast? ≠ some Symbol.dot)
    (hcount : text.count Symbol.dot ≤ 1) : IsNumeral text := by
  have hdigits : ∀ {run : Text}, (∀ c ∈ run, c ∈ text) → run.count Symbol.dot = 0 →
      ∀ c ∈ run, c.isDigit = true := by
    intro run hrun hnone c hc
    have hchar := hchars c (hrun c hc)
    simp only [Token.isNumberChar, Bool.or_eq_true, beq_iff_eq] at hchar
    rcases hchar with hdigit | rfl
    · exact hdigit
    · exact absurd hc (List.count_eq_zero.1 hnone)
  by_cases hdot : Symbol.dot ∈ text
  · obtain ⟨whole, fraction, rfl⟩ := List.append_of_mem hdot
    simp only [List.count_append, List.count_cons_self] at hcount
    have hfraction : fraction ≠ [] := by
      rintro rfl
      exact hlast (by simp)
    refine ⟨whole, fraction, hfraction, hdigits ?_ (by omega), hdigits ?_ (by omega), .inr rfl⟩
    · intro c hc
      exact List.mem_append_left _ hc
    · intro c hc
      exact List.mem_append_right _ (List.mem_cons_of_mem _ hc)
  · exact ⟨[], text, hne, by simp, hdigits (fun _ hc => hc) (List.count_eq_zero.2 hdot), .inl rfl⟩

namespace IsNumeral

variable {text : Text}

theorem isNumberChar (h : IsNumeral text) : ∀ c ∈ text, Token.isNumberChar c = true := by
  obtain ⟨whole, digits, -, hwhole, hdigits, rfl | rfl⟩ := h
  · intro c hc
    simp [Token.isNumberChar, hdigits c hc]
  · intro c hc
    rcases List.mem_append.1 hc with hc | hc
    · simp [Token.isNumberChar, hwhole c hc]
    · rcases List.mem_cons.1 hc with rfl | hc
      · decide
      · simp [Token.isNumberChar, hdigits c hc]

theorem ne_nil (h : IsNumeral text) : text ≠ [] := by
  obtain ⟨whole, digits, hne, -, -, rfl | rfl⟩ := h
  · exact hne
  · simp

theorem singleton {c : Char} (h : c.isDigit = true) : IsNumeral [c] :=
  ⟨[], [c], List.cons_ne_nil c [], List.forall_mem_nil _, List.forall_mem_singleton.2 h, .inl rfl⟩

theorem isMark (h : IsNumeral text) : ∀ c ∈ text, IsMark c :=
  fun c hc => isMark_of_isNumberChar (h.isNumberChar c hc)

end IsNumeral

end Assertions
