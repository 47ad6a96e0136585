import Assertions.Token.Reading

/-!
# Reading at a position

`Token.read` is given what is left of a text. `Token.readAt?` reads with positions in the whole text
instead: it cuts out every part by where it starts and stops, and there is no result if one of these
positions lies inside a character or past the end.

`Token.readAt?_append`: where the text itself can be cut, all the other cuts are possible too, and
what is read is the same.
-/

namespace Assertions

/-- What was read at position `offset`, and the position behind it. -/
def Lexeme.endAt (lexeme : Lexeme) (offset : Nat) : Token × Nat :=
  (lexeme.token, offset + Text.size lexeme.text)

namespace Token

/-! ### Readers that count -/

/-- A reference, in a text that starts with its symbol. -/
def readRefAt? (side : Side) (offset : Nat) (text : Text) :
    Option (Except Fault (Token × Nat)) := do
  let behind ← text.dropBytes? 1
  let stop := 1 + Text.size (behind.takeWhile isPathChar)
  let path ← text.slice? 1 stop
  some (.ok (.ref side (.ofText path), offset + stop))

/-- A string, in a text that starts with its opening quote. -/
def readStringAt? (offset : Nat) (text : Text) : Option (Except Fault (Token × Nat)) := do
  let behind ← text.dropBytes? 1
  match Literal.splitAtQuote? behind with
  | none => some (.error ⟨.openLiteral, ⟨offset, offset + 1⟩⟩)
  | some (inside, _) =>
    let close := Text.size inside
    let content ← text.slice? 1 (1 + close)
    if content.contains Symbol.forbidden then
      let at' := offset + 1 + Text.size (content.takeWhile (· != Symbol.forbidden))
      some (.error ⟨.forbiddenInLiteral, ⟨at', at' + 1⟩⟩)
    else some (.ok (.string content, offset + close + 2))

/-- Whether a text starts with a number. -/
def startsNumberAt? (text : Text) : Option Bool :=
  match text with
  | [] => some false
  | c :: _ =>
    if c.isDigit then some true
    else if c == Symbol.dot then (text.dropBytes? 1).map (·.head?.any Char.isDigit)
    else some false

/-- A number at the start of a text. -/
def readNumberAt? (offset : Nat) (text : Text) : Option (Except Fault (Token × Nat)) := do
  let stop := Text.size (text.takeWhile isNumberChar)
  let number ← text.slice? 0 stop
  if number.getLast? == some Symbol.dot || 1 < number.count Symbol.dot then
    some (.error ⟨.badNumber number, ⟨offset, offset + stop⟩⟩)
  else some (.ok (.number (Decimal.literalValue number), offset + stop))

/-- A call with the given name, whose opening bracket stands at position `stop` of a text. The
bracket that closes it is looked for in the whole text. -/
def readCallAt? (text name : Text) (stop : Nat) : Option (Except Fault (Token × Nat)) :=
  match closingBracket? text stop with
  | none => some (.error ⟨.openCall name, ⟨stop, stop + 1⟩⟩)
  | some close => do
    let args ← text.slice? (stop + 1) close
    some (.ok (.call name args (stop + 1), close + 1))

/-- A name at a position of a text, and with it the argument list if one follows. -/
def readNameAt? (names : Text → Bool) (text : Text) (offset : Nat) :
    Option (Except Fault (Token × Nat)) := do
  let rest ← text.dropBytes? offset
  let stop := offset + Text.size (rest.takeWhile isWordChar)
  let name ← text.slice? offset stop
  if !names name then some (.error ⟨.unknownFunction name, ⟨offset, stop⟩⟩)
  else
    let behind ← text.dropBytes? stop
    if behind.head? == some Symbol.openBracket then readCallAt? text name stop
    else some (.ok (.statement name, stop))

/-- The token at a position of a text, and the position behind it. -/
def readAt? (names : Text → Bool) (text : Text) (offset : Nat) :
    Option (Except Fault (Token × Nat)) := do
  let rest ← text.dropBytes? offset
  match rest with
  | [] => some (.error ⟨.endOfInput, ⟨offset, offset⟩⟩)
  | c :: tail =>
    if c == Symbol.model then readRefAt? .model offset rest
    else if c == Symbol.state then readRefAt? .state offset rest
    else if c == Symbol.quote then readStringAt? offset rest
    else
      let number ← startsNumberAt? rest
      if number then readNumberAt? offset rest
      else if isNameStart c then readNameAt? names text offset
      else some ((readSymbol offset c tail).map (·.endAt offset))

/-! ### Cuts that are possible -/

theorem readRefAt?_cons (side : Side) (offset : Nat) (rest : Text) :
    readRefAt? side offset (side.symbol :: rest) =
      some (.ok ((readRef side rest).endAt offset)) := by
  have hsize : Text.size [side.symbol] = 1 := by cases side <;> rfl
  have hdrop : Text.dropBytes? (side.symbol :: rest) 1 = some rest := by
    have h := Text.dropBytes?_append [side.symbol] rest
    rwa [hsize] at h
  have hslice : Text.slice? (side.symbol :: rest) 1
      (1 + Text.size (rest.takeWhile isPathChar)) = some (rest.takeWhile isPathChar) := by
    have h := Text.slice?_append [side.symbol] (rest.takeWhile isPathChar)
      (rest.dropWhile isPathChar)
    rwa [List.append_assoc, List.takeWhile_append_dropWhile, hsize] at h
  have hsum : Text.size (side.symbol :: rest.takeWhile isPathChar) =
      1 + Text.size (rest.takeWhile isPathChar) := by
    rw [← hsize]
    rfl
  simp only [readRefAt?, hdrop, hslice, Option.bind_eq_bind, Option.bind_some, readRef,
    Lexeme.endAt, hsum]

theorem readStringAt?_cons (offset : Nat) (rest : Text) :
    readStringAt? offset (Symbol.quote :: rest) =
      some ((readString offset rest).map (·.endAt offset)) := by
  have hdrop : Text.dropBytes? (Symbol.quote :: rest) 1 = some rest :=
    Text.dropBytes?_append [Symbol.quote] rest
  cases hsplit : Literal.splitAtQuote? rest with
  | none => simp only [readStringAt?, hdrop, Option.bind_eq_bind, Option.bind_some, hsplit,
      readString, Except.map]
  | some found =>
    obtain ⟨content, after⟩ := found
    have hslice : Text.slice? (Symbol.quote :: rest) 1 (1 + Text.size content) = some content := by
      rw [Literal.eq_of_splitAtQuote? hsplit]
      exact Text.slice?_append [Symbol.quote] content (Symbol.quote :: after)
    have hsum : offset + Text.size (Symbol.quote :: content ++ [Symbol.quote]) =
        offset + Text.size content + 2 := by
      have hquote : Symbol.quote.utf8Size = 1 := rfl
      simp only [Text.size_append, Text.size_cons, Text.size_nil, hquote]
      omega
    simp only [readStringAt?, hdrop, Option.bind_eq_bind, Option.bind_some, hsplit, hslice,
      readString]
    split
    · rfl
    · simp only [Except.map, Lexeme.endAt, hsum]

theorem startsNumberAt?_eq (text : Text) : startsNumberAt? text = some (startsNumber text) := by
  cases text with
  | nil => rfl
  | cons c rest =>
    simp only [startsNumberAt?, startsNumber]
    by_cases hdigit : c.isDigit = true
    · rw [if_pos hdigit, hdigit, Bool.true_or]
    · rw [if_neg hdigit, Bool.eq_false_iff.2 hdigit, Bool.false_or]
      by_cases hdot : c = Symbol.dot
      · have hdrop : Text.dropBytes? (Symbol.dot :: rest) 1 = some rest :=
          Text.dropBytes?_append [Symbol.dot] rest
        rw [hdot, hdrop]
        rfl
      · have hne : (c == Symbol.dot) = false := beq_false_of_ne hdot
        rw [hne, Bool.false_and]
        rfl

theorem readNumberAt?_eq (offset : Nat) (text : Text) :
    readNumberAt? offset text = some ((readNumber offset text).map (·.endAt offset)) := by
  have hslice : Text.slice? text 0 (Text.size (text.takeWhile isNumberChar)) =
      some (text.takeWhile isNumberChar) := by
    have h := Text.slice?_append [] (text.takeWhile isNumberChar) (text.dropWhile isNumberChar)
    rwa [List.nil_append, List.takeWhile_append_dropWhile, Text.size_nil, Nat.zero_add] at h
  simp only [readNumberAt?, hslice, Option.bind_eq_bind, Option.bind_some, readNumber]
  split
  · rfl
  · rfl

/-- The arguments of a call lie between two brackets that are there. -/
theorem readCallAt?_append {text before name inner : Text}
    (htext : text = before ++ name ++ Symbol.openBracket :: inner) :
    readCallAt? text name (Text.size before + Text.size name) =
      some (match enclosed? inner with
        | none => .error ⟨.openCall name, ⟨Text.size before + Text.size name,
            Text.size before + Text.size name + 1⟩⟩
        | some (args, _) => .ok (.call name args (Text.size before + Text.size name + 1),
            Text.size before + Text.size name + 1 + Text.size args + 1)) := by
  have hclosing := closingBracket?_append (before ++ name) inner
  rw [← htext, Text.size_append] at hclosing
  unfold readCallAt?
  cases hclose : enclosed? inner with
  | none =>
    rw [hclosing, hclose]
    rfl
  | some found =>
    obtain ⟨args, after⟩ := found
    have hargs : Text.slice? text (Text.size before + Text.size name + 1)
        (Text.size before + Text.size name + 1 + Text.size args) = some args := by
      have h := Text.slice?_append (before ++ name ++ [Symbol.openBracket]) args
        (Symbol.closeBracket :: after)
      have hopen : Symbol.openBracket.utf8Size = 1 := rfl
      rw [htext, eq_of_enclosed? hclose]
      simpa [hopen, Nat.add_assoc] using h
    rw [hclosing, hclose]
    simp only [Option.map_some, hargs, Option.bind_eq_bind, Option.bind_some]

theorem readNameAt?_append (names : Text → Bool) (before rest : Text) :
    readNameAt? names (before ++ rest) (Text.size before) =
      some ((readName names (Text.size before) rest).map (·.endAt (Text.size before))) := by
  obtain ⟨name, hname⟩ : ∃ name, rest.takeWhile isWordChar = name := ⟨_, rfl⟩
  obtain ⟨behind, hbehind⟩ : ∃ behind, rest.dropWhile isWordChar = behind := ⟨_, rfl⟩
  have htext : before ++ rest = before ++ name ++ behind := by
    rw [← hname, ← hbehind, List.append_assoc, List.takeWhile_append_dropWhile]
  have hslice : Text.slice? (before ++ rest) (Text.size before)
      (Text.size before + Text.size name) = some name := by
    rw [htext]
    exact Text.slice?_append before name behind
  have hdrop : Text.dropBytes? (before ++ rest) (Text.size before + Text.size name) =
      some behind := by
    rw [htext, ← Text.size_append]
    exact Text.dropBytes?_append (before ++ name) behind
  simp only [readNameAt?, readName, Text.dropBytes?_append, Option.bind_eq_bind,
    Option.bind_some, hname, hslice, hdrop, hbehind]
  by_cases hknown : (!names name) = true
  · rw [if_pos hknown, if_pos hknown]
    rfl
  · rw [if_neg hknown, if_neg hknown]
    cases behind with
    | nil => rfl
    | cons c inner =>
      by_cases hc : c = Symbol.openBracket
      · subst hc
        have hcall := readCallAt?_append htext
        simp only [List.head?_cons, beq_self_eq_true, if_true, hcall]
        cases enclosed? inner with
        | none => rfl
        | some found =>
          have hopen : Symbol.openBracket.utf8Size = 1 := rfl
          have hclosed : Symbol.closeBracket.utf8Size = 1 := rfl
          simp [Except.map, Lexeme.endAt, hopen, hclosed]
          omega
      · have hhead : ¬(c == Symbol.openBracket) = true := by simpa using hc
        have hhead' : ¬((c :: inner).head? == some Symbol.openBracket) = true := by simpa using hc
        rw [if_neg hhead']
        simp only [if_neg hhead]
        rfl

/-- **Reading at a position.** Behind any part of a text the token can be read: no cut fails, and
the token is the one that the rest of the text starts with. -/
theorem readAt?_append (names : Text → Bool) (before rest : Text) :
    readAt? names (before ++ rest) (Text.size before) =
      some ((read names (Text.size before) rest).map (·.endAt (Text.size before))) := by
  simp only [readAt?, Text.dropBytes?_append, Option.bind_eq_bind, Option.bind_some]
  cases rest with
  | nil => rfl
  | cons c tail =>
    simp only [read]
    split
    · rename_i hc
      rw [beq_iff_eq.1 hc]
      exact readRefAt?_cons .model _ tail
    · split
      · rename_i hc
        rw [beq_iff_eq.1 hc]
        exact readRefAt?_cons .state _ tail
      · split
        · rename_i hc
          rw [beq_iff_eq.1 hc]
          exact readStringAt?_cons _ tail
        · rw [startsNumberAt?_eq, Option.bind_some]
          split
          · exact readNumberAt?_eq _ (c :: tail)
          · split
            · exact readNameAt?_append names before (c :: tail)
            · rfl

end Token

end Assertions
