import Assertions.Proofs.Phrase

/-!
# The tokens of a written expression

Reading the text of a phrase gives the tokens of the phrase, in front of any text that cannot
belong to its last token (`tokenizeWithin_text`). Two neighbours never run together: an operand ends
where a character follows that no operand can have, and no operand starts with a character that
could make an operator longer.
-/

namespace Assertions

/-- Whether a text cannot belong to an operand in front of it. -/
def EndsOperand (after : Text) : Prop :=
  ∀ c rest, after = c :: rest → isWordChar c = false ∧ c ≠ Symbol.dot ∧ c ≠ Symbol.openBracket

/-- Whether a text cannot belong to a name in front of it. -/
def EndsName (after : Text) : Prop := ∀ c rest, after = c :: rest → isWordChar c = false

/-- Whether a text cannot belong to an operator in front of it. -/
def EndsOperator (after : Text) : Prop := ∀ rest, after ≠ '=' :: rest

namespace EndsOperand

variable {after : Text}

theorem path (h : EndsOperand after) :
    ∀ c rest, after = c :: rest → Token.isPathChar c = false := by
  intro c rest hc
  obtain ⟨hword, hdot, -⟩ := h c rest hc
  simp [Token.isPathChar, hword, hdot]

theorem number (h : EndsOperand after) :
    ∀ c rest, after = c :: rest → Token.isNumberChar c = false := by
  intro c rest hc
  obtain ⟨hword, hdot, -⟩ := h c rest hc
  have hdigit : c.isDigit = false := by
    rw [Bool.eq_false_iff]
    intro hdigit
    rw [isWordChar_of_isDigit hdigit] at hword
    cases hword
  simp [Token.isNumberChar, hdigit, hdot]

theorem statement (h : EndsOperand after) :
    ∀ c rest, after = c :: rest → isWordChar c = false ∧ c ≠ Symbol.openBracket :=
  fun c rest hc => ⟨(h c rest hc).1, (h c rest hc).2.2⟩

end EndsOperand

theorem endsName_openBracket (after : Text) : EndsName (Symbol.openBracket :: after) := by
  intro c rest heq
  cases heq
  decide

/-- The longest run of characters of a class is found again if the next one is not in the class. -/
theorem takeWhile_dropWhile_append {p : Char → Bool} {text after : Text}
    (htext : ∀ c ∈ text, p c = true) (hafter : ∀ c rest, after = c :: rest → p c = false) :
    (text ++ after).takeWhile p = text ∧ (text ++ after).dropWhile p = after := by
  have hnone : after.takeWhile p = [] ∧ after.dropWhile p = after := by
    cases after with
    | nil => exact ⟨rfl, rfl⟩
    | cons c rest => simp [hafter c rest rfl]
  rw [List.takeWhile_append_of_pos htext, List.dropWhile_append_of_pos htext, hnone.1, hnone.2,
    List.append_nil]
  exact ⟨rfl, rfl⟩

/-! ### One token -/

namespace Token

variable {names : Text → Bool} {offset : Nat} {after : Text}

theorem read_ref {side : Side} {path : Path} (hpath : path.IsPlain)
    (hafter : ∀ c rest, after = c :: rest → isPathChar c = false) :
    read names offset (side.symbol :: path.toText ++ after) =
      .ok ⟨.ref side path, side.symbol :: path.toText, after⟩ := by
  obtain ⟨htake, hdrop⟩ :=
    takeWhile_dropWhile_append (Path.isPathChar_of_mem_toText hpath) hafter
  have hread : readRef side (path.toText ++ after) =
      ⟨.ref side path, side.symbol :: path.toText, after⟩ := by
    simp only [readRef, htake, hdrop, Path.ofText_toText hpath]
  cases side with
  | model => exact congrArg Except.ok hread
  | state => exact congrArg Except.ok hread

/-- The first quote ends a literal. -/
theorem splitAtQuote?_append {content : Text} (h : Symbol.quote ∉ content) :
    Literal.splitAtQuote? (content ++ Symbol.quote :: after) = some (content, after) := by
  induction content with
  | nil => rfl
  | cons c rest ih =>
    simp only [List.mem_cons, not_or] at h
    have hc : ¬(c == Symbol.quote) = true := by simpa using Ne.symm h.1
    simp only [List.cons_append, Literal.splitAtQuote?, if_neg hc, ih h.2, Option.map_some]

theorem read_string {content : Text} (hquote : Symbol.quote ∉ content)
    (hforbidden : Symbol.forbidden ∉ content) :
    read names offset (Symbol.quote :: content ++ [Symbol.quote] ++ after) =
      .ok ⟨.string content, Symbol.quote :: content ++ [Symbol.quote], after⟩ := by
  have hread : readString offset (content ++ ([Symbol.quote] ++ after)) =
      .ok ⟨.string content, Symbol.quote :: content ++ [Symbol.quote], after⟩ := by
    have hallowed : ¬content.contains Symbol.forbidden = true := by simpa using hforbidden
    rw [List.singleton_append, readString, splitAtQuote?_append hquote]
    simp only [if_neg hallowed]
  rw [List.append_assoc]
  exact hread

/-- A numeral starts like a number. -/
theorem startsNumber_of_isNumeral {digits : Text} (h : IsNumeral digits) (after : Text) :
    startsNumber (digits ++ after) = true := by
  obtain ⟨whole, fraction, hne, hwhole, hfraction, rfl | rfl⟩ := h
  · cases digits with
    | nil => exact absurd rfl hne
    | cons c rest => simp [startsNumber, hfraction c List.mem_cons_self]
  · cases whole with
    | cons c rest => simp [startsNumber, hwhole c List.mem_cons_self]
    | nil =>
      cases fraction with
      | nil => exact absurd rfl hne
      | cons c rest => simp [startsNumber, hfraction c List.mem_cons_self]

/-- A numeral has one dot at most, and none at its end. -/
theorem not_bad_of_isNumeral {digits : Text} (h : IsNumeral digits) :
    ¬(digits.getLast? == some Symbol.dot || decide (1 < digits.count Symbol.dot)) = true := by
  have hdot : ∀ {run : Text}, (∀ c ∈ run, c.isDigit = true) → Symbol.dot ∉ run := by
    intro run hrun hmem
    exact absurd (hrun _ hmem) (by decide)
  obtain ⟨whole, fraction, hne, hwhole, hfraction, rfl | rfl⟩ := h
  · have hlast : digits.getLast? ≠ some Symbol.dot :=
      fun heq => hdot hfraction (List.mem_of_getLast? heq)
    simp [hlast, List.count_eq_zero_of_not_mem (hdot hfraction)]
  · have hlast : (Symbol.dot :: fraction).getLast? ≠ some Symbol.dot := by
      rw [List.getLast?_cons_of_ne_nil hne]
      exact fun heq => hdot hfraction (List.mem_of_getLast? heq)
    simp [hlast, List.count_eq_zero_of_not_mem (hdot hfraction),
      List.count_eq_zero_of_not_mem (hdot hwhole)]

theorem read_number {digits : Text} (hdigits : IsNumeral digits)
    (hafter : ∀ c rest, after = c :: rest → isNumberChar c = false) :
    read names offset (digits ++ after) =
      .ok ⟨.number (Decimal.literalValue digits), digits, after⟩ := by
  obtain ⟨htake, hdrop⟩ := takeWhile_dropWhile_append hdigits.isNumberChar hafter
  have hread : readNumber offset (digits ++ after) =
      .ok ⟨.number (Decimal.literalValue digits), digits, after⟩ := by
    simp only [readNumber, htake, hdrop, if_neg (not_bad_of_isNumeral hdigits)]
  have hstart := startsNumber_of_isNumeral hdigits after
  cases htext : digits ++ after with
  | nil =>
    rw [htext] at hstart
    cases hstart
  | cons c rest =>
    have hmark : IsMark c := by
      rw [htext] at hstart
      simp only [startsNumber, Bool.or_eq_true, Bool.and_eq_true, beq_iff_eq] at hstart
      rcases hstart with hdigit | ⟨rfl, -⟩
      · exact isMark_of_isDigit hdigit
      · exact isMark_dot
    have hmodel : ¬(c == Symbol.model) = true := by simpa using hmark.ne (by decide)
    have hstate : ¬(c == Symbol.state) = true := by simpa using hmark.ne (by decide)
    have hquote : ¬(c == Symbol.quote) = true := by simpa using hmark.ne (by decide)
    rw [htext] at hstart hread
    rw [read, if_neg hmodel, if_neg hstate, if_neg hquote, if_pos hstart, hread]

/-- A text that starts like a name is read as one. -/
theorem read_of_isNameStart {c : Char} (hc : isNameStart c = true) (rest : Text) :
    read names offset (c :: rest) = readName names offset (c :: rest) := by
  have hmark := isMark_of_isWordChar (isWordChar_of_isNameStart c hc)
  have hmodel : ¬(c == Symbol.model) = true := by simpa using hmark.ne (by decide)
  have hstate : ¬(c == Symbol.state) = true := by simpa using hmark.ne (by decide)
  have hquote : ¬(c == Symbol.quote) = true := by simpa using hmark.ne (by decide)
  have hdot : c ≠ Symbol.dot := by
    intro heq
    rw [heq] at hc
    exact absurd hc (by decide)
  have hnumber : ¬startsNumber (c :: rest) = true := by
    simp [startsNumber, not_isDigit_of_isNameStart hc, hdot]
  rw [read, if_neg hmodel, if_neg hstate, if_neg hquote, if_neg hnumber, if_pos hc]

/-- A name is read up to its end. -/
theorem read_name (names : Text → Bool) (offset : Nat) {name : Text}
    (hname : isIdentifier name = true)
    (hafter : EndsName after) :
    read names offset (name ++ after) = readName names offset (name ++ after) ∧
      (name ++ after).takeWhile isWordChar = name ∧
      (name ++ after).dropWhile isWordChar = after := by
  refine ⟨?_, takeWhile_dropWhile_append (fun _ => isWordChar_of_mem_name hname) hafter⟩
  cases name with
  | nil => cases hname
  | cons c rest =>
    simp only [isIdentifier, Bool.and_eq_true] at hname
    exact read_of_isNameStart hname.1 (rest ++ after)

theorem read_statement {name : Text} (hname : isIdentifier name = true)
    (hknown : names name = true)
    (hafter : ∀ c rest, after = c :: rest → isWordChar c = false ∧ c ≠ Symbol.openBracket) :
    read names offset (name ++ after) = .ok ⟨.statement name, name, after⟩ := by
  obtain ⟨hread, htake, hdrop⟩ := read_name names offset hname
    fun c rest hc => (hafter c rest hc).1
  rw [hread, readName]
  simp only [htake, hdrop, hknown, Bool.not_true, Bool.false_eq_true, if_false]
  cases after with
  | nil => rfl
  | cons c rest =>
    have hc : ¬(c == Symbol.openBracket) = true := by simpa using (hafter c rest rfl).2
    simp only [if_neg hc]

theorem read_call {name args : Text} (hname : isIdentifier name = true)
    (hknown : names name = true) (hargs : Balanced args) :
    read names offset
        (name ++ Symbol.openBracket :: args ++ [Symbol.closeBracket] ++ after) =
      .ok ⟨.call name args (offset + Text.size name + 1),
        name ++ Symbol.openBracket :: args ++ [Symbol.closeBracket], after⟩ := by
  obtain ⟨hread, htake, hdrop⟩ := read_name names offset hname
    (endsName_openBracket (args ++ Symbol.closeBracket :: after))
  have htext : name ++ Symbol.openBracket :: args ++ [Symbol.closeBracket] ++ after =
      name ++ Symbol.openBracket :: (args ++ Symbol.closeBracket :: after) := by simp
  rw [htext, hread, readName]
  simp only [htake, hdrop, hknown, enclosed?_of_balanced hargs, Bool.not_true, Bool.false_eq_true,
    if_false, beq_self_eq_true, if_true]

theorem read_operator {op : Operator} (hafter : op = .lt ∨ op = .gt → EndsOperator after) :
    read names offset (op.spelling ++ after) = .ok ⟨.operator op, op.spelling, after⟩ := by
  have hread : Operator.read? (op.spelling ++ after) = some (op, after) := by
    cases op with
    | lt | gt =>
      cases after with
      | nil => rfl
      | cons c rest =>
        have hc : c ≠ '=' := fun heq => hafter (by simp) rest (by rw [heq])
        simp [Operator.spelling, Operator.read?, hc]
    | _ => rfl
  have hsymbol : ∀ c rest, op.spelling ++ after = c :: rest →
      read names offset (c :: rest) = readSymbol offset c rest ∧
        (c == Symbol.openBracket) = false ∧ (c == Symbol.closeBracket) = false := by
    intro c rest heq
    cases op <;> cases heq <;> exact ⟨rfl, rfl, rfl⟩
  cases htext : op.spelling ++ after with
  | nil =>
    rw [htext] at hread
    cases hread
  | cons c rest =>
    obtain ⟨hc, hopen, hclose⟩ := hsymbol c rest htext
    rw [htext] at hread
    rw [hc, readSymbol, hopen, hclose, hread]
    rfl

theorem read_openBracket :
    read names offset (Symbol.openBracket :: after) =
      .ok ⟨.openBracket, [Symbol.openBracket], after⟩ := rfl

theorem read_closeBracket :
    read names offset (Symbol.closeBracket :: after) =
      .ok ⟨.closeBracket, [Symbol.closeBracket], after⟩ := rfl

end Token

/-! ### Texts -/

/-- The first token of a text, and the others. -/
theorem tokenizeWithin_of_read {names : Text → Bool} {room offset : Nat} {text : Text}
    {lexeme : Lexeme} (h : Token.read names offset text = .ok lexeme) :
    tokenizeWithin names (room + 1) offset text =
      (tokenizeWithin names room (offset + Text.size lexeme.text) lexeme.rest).map
        ([⟨lexeme.token, ⟨offset, offset + Text.size lexeme.text⟩⟩] ++ ·) := by
  cases text with
  | nil => cases h
  | cons c rest =>
    rw [tokenizeWithin, h]
    dsimp only
    cases tokenizeWithin names room (offset + Text.size lexeme.text) lexeme.rest <;> rfl

theorem map_append_map_append {α ε : Type} (front back : List α) (x : Except ε (List α)) :
    (x.map (back ++ ·)).map (front ++ ·) = x.map ((front ++ back) ++ ·) := by
  cases x with
  | error => rfl
  | ok => simp [Except.map]

theorem endsOperand_nil : EndsOperand [] := by
  intro c rest heq
  cases heq

theorem endsOperand_closeBracket (after : Text) : EndsOperand (Symbol.closeBracket :: after) := by
  intro c rest heq
  cases heq
  decide

/-- An operator ends the operand in front of it. -/
theorem endsOperand_spelling (op : Operator) (after : Text) :
    EndsOperand (op.spelling ++ after) := by
  intro c rest heq
  cases op <;> cases heq <;> decide

namespace Phrase

variable {names : Text → Bool} {p : Phrase}

/-- No phrase makes the operator in front of it longer. -/
theorem IsSpelled.endsOperator (h : p.IsSpelled names) (after : Text) :
    EndsOperator (p.text ++ after) := by
  obtain ⟨c, rest, htext, -, hc⟩ := h.head_text
  intro more heq
  rw [htext] at heq
  cases heq
  exact hc rfl

/-- **Tokens of a phrase.** Reading the text of a phrase gives its tokens, and goes on behind it. -/
theorem tokenizeWithin_text (h : p.IsSpelled names) :
    ∀ (room offset : Nat) (after : Text), EndsOperand after →
      tokenizeWithin names (p.tokenCount + room) offset (p.text ++ after) =
        (tokenizeWithin names room (offset + Text.size p.text) after).map
          (p.tokens offset ++ ·) := by
  induction h with
  | ref side hpath =>
    intro room offset after hafter
    rw [tokenCount, Nat.add_comm]
    exact tokenizeWithin_of_read (Token.read_ref hpath hafter.path)
  | string hquote hforbidden =>
    intro room offset after _
    rw [tokenCount, Nat.add_comm]
    exact tokenizeWithin_of_read (Token.read_string hquote hforbidden)
  | statement hname hknown =>
    intro room offset after hafter
    rw [tokenCount, Nat.add_comm]
    exact tokenizeWithin_of_read (Token.read_statement hname hknown hafter.statement)
  | number sign hdigits =>
    intro room offset after hafter
    cases sign with
    | none =>
      rw [tokenCount, Nat.add_comm]
      exact tokenizeWithin_of_read (Token.read_number hdigits hafter.number)
    | some sign =>
      rename_i digits
      have hbare : (Phrase.number none digits).IsSpelled names := .number none hdigits
      have hends : EndsOperator (digits ++ after) := hbare.endsOperator after
      rw [tokenCount, text, List.append_assoc, show 2 + room = room + 1 + 1 by omega,
        tokenizeWithin_of_read (Token.read_operator fun _ => hends)]
      dsimp only
      rw [tokenizeWithin_of_read (Token.read_number hdigits hafter.number), map_append_map_append,
        Text.size_append, ← Nat.add_assoc]
      rfl
  | call hname hknown hargs hcount ih =>
    rename_i name args
    intro room offset after _
    have hbalanced : Balanced (joinCommas (texts args)) := by
      rw [texts_eq_map]
      exact balanced_joinCommas (List.forall_mem_map.2 fun arg harg =>
        (hargs arg harg).selfContained_text.balanced)
    rw [tokenCount, Nat.add_comm]
    exact tokenizeWithin_of_read (Token.read_call hname hknown hbalanced)
  | binary op hleft hright ihl ihr =>
    rename_i left right
    intro room offset after hafter
    have hroom : (Phrase.binary op left right).tokenCount + room =
        left.tokenCount + (right.tokenCount + room + 1) := by
      rw [tokenCount]
      omega
    rw [hroom, text, List.append_assoc, List.append_assoc,
      ihl _ offset _ (endsOperand_spelling op (right.text ++ after)),
      tokenizeWithin_of_read (Token.read_operator fun _ => hright.endsOperator after)]
    dsimp only
    rw [ihr room _ after hafter, map_append_map_append, map_append_map_append, Text.size_append,
      Text.size_append, ← Nat.add_assoc, ← Nat.add_assoc]
    simp only [tokens, List.append_assoc, List.singleton_append]
  | group hinner ih =>
    rename_i inner
    intro room offset after hafter
    have hroom : (Phrase.group inner).tokenCount + room =
        inner.tokenCount + (room + 1) + 1 := by
      rw [tokenCount]
      omega
    have htext : (Phrase.group inner).text ++ after =
        Symbol.openBracket :: (inner.text ++ Symbol.closeBracket :: after) := by
      simp [text]
    have hsize : Text.size (Phrase.group inner).text = 1 + Text.size inner.text + 1 := by
      rw [text, Text.size_append, Text.size_cons]
      rfl
    rw [hroom, htext, tokenizeWithin_of_read Token.read_openBracket]
    dsimp only
    rw [ih _ _ _ (endsOperand_closeBracket after), tokenizeWithin_of_read Token.read_closeBracket]
    dsimp only
    rw [map_append_map_append, map_append_map_append, hsize, ← Nat.add_assoc, ← Nat.add_assoc]
    rfl

/-- The tokens of a text of a phrase that is not too long. -/
theorem tokenize_text (h : p.IsSpelled names) (hcount : p.tokenCount ≤ maxTokens)
    (offset : Nat) : tokenize names offset p.text = .ok (p.tokens offset) := by
  have hroom : maxTokens = p.tokenCount + (maxTokens - p.tokenCount) := by omega
  have hread := tokenizeWithin_text h (maxTokens - p.tokenCount) offset [] endsOperand_nil
  rw [List.append_nil, ← hroom, tokenizeWithin] at hread
  rw [tokenize, hread]
  simp [Except.map]

end Phrase

end Assertions
