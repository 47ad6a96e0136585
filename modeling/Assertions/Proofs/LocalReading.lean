import Assertions.Proofs.FoundBrackets

/-!
# Reading is local

What is in front of a token moves it and nothing else (`Token.readAt?_eq_moved`). What is behind a
token matters only where it could make the token longer: `Token.EndedBy` says which texts cannot. A
token is read in front of any such text (`Token.read_append`), and the rest of a text that it was
read from is one (`Token.endedBy_of_read`). A beginning of that rest is one too, the empty one
included. So a text that is cut off behind a token has the same tokens up to there.

Therefore the tokens of a text from one token to a later one are the tokens of the text that they
were read from (`exists_slice_of_tokenize`).
-/

namespace Assertions

variable {names : Text → Bool} {offset : Nat} {text rest : Text}

/-! ### What is in front of a token -/

/-- What was read and the position behind it, in a text that starts `k` bytes later. -/
def moveReading (k : Nat) (result : Except Fault (Token × Nat)) : Except Fault (Token × Nat) :=
  shiftError k (result.map fun found => (found.1.shift k, found.2 + k))

namespace Token

/-- At the start of a text the token is read that the text starts with. -/
theorem readAt?_zero (names : Text → Bool) (text : Text) :
    readAt? names text 0 = some ((read names 0 text).map (·.endAt 0)) :=
  readAt?_append names [] text

/-- **Positions.** Reading at a position of a text is reading at the start of what is left from
there, moved. -/
theorem readAt?_eq_moved (names : Text → Bool) {k : Nat} (h : text.dropBytes? k = some rest) :
    readAt? names text k = some (moveReading k ((read names 0 rest).map (·.endAt 0))) := by
  obtain ⟨before, rfl, rfl⟩ := Text.exists_of_dropBytes? h
  have hmoved := read_add names 0 (Text.size before) rest
  rw [Nat.zero_add] at hmoved
  rw [readAt?_append, hmoved]
  cases read names 0 rest with
  | error fault => rfl
  | ok lexeme =>
    have hstop : Text.size before + Text.size lexeme.text =
        0 + Text.size lexeme.text + Text.size before := by omega
    simp only [moveReading, shiftError, Except.map, Lexeme.shift, Lexeme.endAt, hstop]

/-! ### What is behind a token -/

/-- Whether a text cannot make the token in front of it longer. Of the operators only two can go on,
and no literal, bracket or call can. -/
def EndedBy (after : Text) : Token → Prop
  | .ref _ _ => ∀ c rest, after = c :: rest → isPathChar c = false
  | .number _ => ∀ c rest, after = c :: rest → isNumberChar c = false
  | .statement _ => ∀ c rest, after = c :: rest → isWordChar c = false ∧ c ≠ Symbol.openBracket
  | .operator op => op = .lt ∨ op = .gt → EndsOperator after
  | .string _ | .call _ _ _ | .openBracket | .closeBracket => True

variable {token : Token} {lexeme : Lexeme}

/-- If a text cannot make a token longer, no beginning of that text can. -/
theorem EndedBy.cut {after : Text} (h : token.EndedBy after) (hrest : rest <+: after) :
    token.EndedBy rest := by
  have hfirst : ∀ c more, rest = c :: more → ∃ tail, after = c :: tail := by
    rintro c more rfl
    obtain ⟨tail, rfl⟩ := hrest
    exact ⟨more ++ tail, rfl⟩
  cases token with
  | ref | number | statement =>
    intro c more hmore
    obtain ⟨tail, htail⟩ := hfirst c more hmore
    exact h c tail htail
  | operator op =>
    intro hop more hmore
    obtain ⟨tail, htail⟩ := hfirst '=' more hmore
    exact h hop tail htail
  | _ => trivial

/-- Behind the longest run of characters of a class there is none of them. -/
theorem of_dropWhile_eq_cons {p : Char → Bool} {c : Char} {tail : Text}
    (h : text.dropWhile p = c :: tail) : p c = false := by
  have hhead := List.head?_dropWhile_not p text
  rw [h] at hhead
  exact hhead

/-- A name that is read without arguments is ended by what follows. -/
theorem endedBy_of_readName {name : Text} (h : readName names offset text = .ok lexeme)
    (htoken : lexeme.token = .statement name) : lexeme.token.EndedBy lexeme.rest := by
  unfold readName at h
  dsimp only at h
  split at h
  · cases h
  · split at h
    · cases h
      exact nofun
    · rename_i d tail hdrop
      split at h
      · split at h
        · cases h
        · cases h
          cases htoken
      · rename_i hd
        cases h
        rintro c more ⟨⟩
        exact ⟨of_dropWhile_eq_cons hdrop, by simpa using hd⟩

/-- What is left behind a token that was read cannot make it longer. -/
theorem endedBy_of_read (h : read names offset text = .ok lexeme) :
    lexeme.token.EndedBy lexeme.rest := by
  obtain ⟨htext, hlexeme⟩ := isLexeme_read h
  obtain ⟨token, spelled, rest⟩ := lexeme
  change IsLexeme names offset token spelled at hlexeme
  obtain rfl : text = spelled ++ rest := htext
  cases hlexeme with
  | ref side hpath =>
    rename_i path
    have hread : read names offset (side.symbol :: path.toText ++ rest) =
        .ok (readRef side (path.toText ++ rest)) := by cases side <;> rfl
    rw [hread] at h
    have hrest : (path.toText ++ rest).dropWhile isPathChar = rest :=
      congrArg Lexeme.rest (Except.ok.inj h)
    intro c more hmore
    exact of_dropWhile_eq_cons (hrest.trans hmore)
  | number => exact fun c more => not_isNumberChar_of_read h rfl
  | statement hname =>
    cases spelled with
    | nil => cases hname
    | cons c tail =>
      simp only [isIdentifier, Bool.and_eq_true] at hname
      rw [List.cons_append, read_of_isNameStart hname.1] at h
      exact endedBy_of_readName h rfl
  | operator op =>
    rintro (rfl | rfl) more rfl
    · cases h
    · cases h
  | _ => trivial

/-- **What follows.** A token is read from its spelling in front of any text that cannot make it
longer. -/
theorem read_append (h : IsLexeme names offset token text)
    (hargs : ∀ name args argsAt, token = .call name args argsAt → Balanced args)
    (hrest : token.EndedBy rest) :
    read names offset (text ++ rest) = .ok ⟨token, text, rest⟩ := by
  cases h with
  | ref side hpath => exact read_ref hpath hrest
  | string hquote hforbidden => exact read_string hquote hforbidden
  | number hdigits => exact read_number hdigits hrest
  | statement hname hknown => exact read_statement hname hknown hrest
  | call hname hknown => exact read_call hname hknown (hargs _ _ _ rfl)
  | operator op => exact read_operator hrest
  | openBracket | closeBracket => rfl

/-- A token is read again if the text behind it is cut off. -/
theorem read_cut (h : read names offset text = .ok lexeme) (hrest : rest <+: lexeme.rest) :
    read names offset (lexeme.text ++ rest) = .ok ⟨lexeme.token, lexeme.text, rest⟩ :=
  read_append (isLexeme_read h).2 (fun _ _ _ => balanced_of_read h)
    ((endedBy_of_read h).cut hrest)

end Token

/-! ### Tokens in a row -/

namespace Reads

variable {tokens front back : List PlacedToken}

/-- Tokens in two parts are read from a text in two parts. -/
theorem of_append (h : Reads names offset text (front ++ back) rest) :
    ∃ before after, text = before ++ after ∧ Reads names offset text front after ∧
      Reads names (offset + Text.size before) after back rest := by
  induction front generalizing offset text with
  | nil => exact ⟨[], text, rfl, .done offset text, h⟩
  | cons first others ih =>
    obtain ⟨lexeme, hread, rfl, hothers⟩ := h.of_cons
    obtain ⟨before, after, hrest, hfront, hback⟩ := ih hothers
    refine ⟨lexeme.text ++ before, after, ?_, .next hread hfront, ?_⟩
    · rw [(Token.isLexeme_read hread).1, hrest, List.append_assoc]
    · rw [Text.size_append, ← Nat.add_assoc]
      exact hback

/-- The tokens are read again if the text behind them is cut off. -/
theorem cut {shorter : Text} (h : Reads names offset text tokens rest)
    (hshorter : shorter <+: rest) :
    ∀ front, text = front ++ rest → Reads names offset (front ++ shorter) tokens shorter := by
  induction h with
  | done offset text =>
    intro front hfront
    rw [List.self_eq_append_left.1 hfront]
    exact .done offset shorter
  | @next offset text rest lexeme tokens hread h ih =>
    intro front hfront
    obtain ⟨others, hothers, -⟩ := h.exists_tiles
    have htext := (Token.isLexeme_read hread).1
    obtain rfl : front = lexeme.text ++ others := by
      rw [hfront, hothers, ← List.append_assoc] at htext
      exact List.append_cancel_right htext
    have hbehind : others ++ shorter <+: lexeme.rest := by
      rw [hothers]
      exact (List.prefix_append_right_inj others).2 hshorter
    have hagain := Reads.next (Token.read_cut hread hbehind) (ih hshorter others hothers)
    rwa [← List.append_assoc] at hagain

end Reads

/-- The last of the tokens that lie side by side ends where they do. -/
theorem Tiles.stop_eq {start stop : Nat} {tokens : List PlacedToken} {last : PlacedToken}
    (h : Tiles start stop tokens) (hlast : tokens.getLast? = some last) :
    last.span.stop = stop := by
  induction tokens generalizing start with
  | nil => cases hlast
  | cons first others ih =>
    obtain ⟨-, -, hothers⟩ := h
    cases others with
    | nil =>
      cases hlast
      exact hothers
    | cons second more => exact ih hothers (by rwa [List.getLast?_cons_cons] at hlast)

/-- The first of the tokens that lie side by side starts where they do. -/
theorem Tiles.start_eq {start stop : Nat} {tokens : List PlacedToken} {first : PlacedToken}
    (h : Tiles start stop tokens) (hfirst : tokens.head? = some first) :
    first.span.start = start := by
  cases tokens with
  | nil => cases hfirst
  | cons placed others =>
    cases hfirst
    exact h.1

section

variable {tokens front run back : List PlacedToken} {first last : PlacedToken}

/-- **Tokens from one on.** What is left of a text from a token on has that token and all later
ones. -/
theorem exists_rest_of_tokenize (h : tokenize names 0 text = .ok (front ++ first :: back)) :
    ∃ rest found, text.dropBytes? first.span.start = some rest ∧
      tokenize names 0 rest = .ok found ∧
      first :: back = found.map (·.shift first.span.start) := by
  obtain ⟨hreads, hlength⟩ := tokenizeWithin_eq_ok_iff.1 h
  obtain ⟨before, after, rfl, -, hback⟩ := hreads.of_append
  obtain ⟨spelled, -, htiles⟩ := hback.exists_tiles
  rw [Nat.zero_add] at hback htiles
  rw [htiles.start_eq rfl]
  have hcount : (first :: back).length ≤ maxTokens := by
    rw [List.length_append] at hlength
    omega
  obtain ⟨found, hfound, heq⟩ :=
    tokenize_eq_ok_iff.1 (tokenizeWithin_eq_ok_iff.2 ⟨hback, hcount⟩)
  exact ⟨after, found, Text.dropBytes?_append before after, hfound, heq⟩

/-- **Tokens from one to another.** What stands in a text from the start of a token to the end of a
later one has these tokens and those between them. -/
theorem exists_slice_of_tokenize (h : tokenize names 0 text = .ok (front ++ run ++ back))
    (hfirst : run.head? = some first) (hlast : run.getLast? = some last) :
    ∃ piece found, text.slice? first.span.start last.span.stop = some piece ∧
      tokenize names 0 piece = .ok found ∧ run = found.map (·.shift first.span.start) := by
  rw [List.append_assoc] at h
  obtain ⟨hreads, hlength⟩ := tokenizeWithin_eq_ok_iff.1 h
  obtain ⟨before, behind, rfl, -, hbehind⟩ := hreads.of_append
  obtain ⟨piece, after, rfl, hrun, -⟩ := hbehind.of_append
  rw [Nat.zero_add] at hrun
  have htiles : Tiles (Text.size before) (Text.size before + Text.size piece) run := by
    obtain ⟨spelled, hspelled, htiles⟩ := hrun.exists_tiles
    rwa [List.append_cancel_right hspelled]
  have hcut := hrun.cut List.nil_prefix piece rfl
  rw [List.append_nil] at hcut
  have hcount : run.length ≤ maxTokens := by
    simp only [List.length_append] at hlength
    omega
  obtain ⟨found, hfound, heq⟩ :=
    tokenize_eq_ok_iff.1 (tokenizeWithin_eq_ok_iff.2 ⟨hcut, hcount⟩)
  rw [htiles.start_eq hfirst, htiles.stop_eq hlast, ← List.append_assoc]
  exact ⟨piece, found, Text.slice?_append before piece after, hfound, heq⟩

end

/-- **Reading is local.** Reading at a position of a text is reading what is left of the text from
there, with the position added to the end of the token, to the position of its arguments or to the
span of the fault. If a text is cut into tokens, what is left of it from a token on has that token
and the later ones, and what stands from a token to the end of the same or a later one has just
these tokens, moved to its start. -/
theorem reading_local (names : Text → Bool) (text : Text) :
    (∀ k rest, text.dropBytes? k = some rest → ∃ result,
      Token.readAt? names rest 0 = some result ∧
        result = (Token.read names 0 rest).map (·.endAt 0) ∧
        Token.readAt? names text k = some (moveReading k result)) ∧
    ∀ tokens, tokenize names 0 text = .ok tokens →
      (∀ front first back, tokens = front ++ first :: back →
        ∃ rest found, text.dropBytes? first.span.start = some rest ∧
          tokenize names 0 rest = .ok found ∧
          first :: back = found.map (·.shift first.span.start)) ∧
      ∀ front run back first last, tokens = front ++ run ++ back →
        run.head? = some first → run.getLast? = some last →
          ∃ piece found, text.slice? first.span.start last.span.stop = some piece ∧
            tokenize names 0 piece = .ok found ∧
            run = found.map (·.shift first.span.start) := by
  constructor
  · intro k rest h
    exact ⟨_, Token.readAt?_zero names rest, rfl, Token.readAt?_eq_moved names h⟩
  · intro tokens h
    constructor
    · rintro front first back rfl
      exact exists_rest_of_tokenize h
    · rintro front run back first last rfl hfirst hlast
      exact exists_slice_of_tokenize h hfirst hlast

/-- A call and an operator, cut out where the operator could go on and a name goes on behind it. -/
theorem reading_local_call :
    (∃ result, Token.readAt? (· == ['f']) ['f', '(', '1', ')', '<', 'f'] 0 = some result ∧
      Token.readAt? (· == ['f']) ['é', 'f', '(', '1', ')', '<', 'f'] 2 =
        some (moveReading 2 result)) ∧
    ∃ piece found, Text.slice? ['1', '+', 'f', '(', '1', ')', '<', 'f'] 2 7 = some piece ∧
      tokenize (· == ['f']) 0 piece = .ok found ∧
      [⟨.call ['f'] ['1'] 4, ⟨2, 6⟩⟩, ⟨.operator .lt, ⟨6, 7⟩⟩] = found.map (·.shift 2) := by
  constructor
  · obtain ⟨result, hresult, -, hmoved⟩ :=
      (reading_local (· == ['f']) ['é', 'f', '(', '1', ')', '<', 'f']).1 2
        ['f', '(', '1', ')', '<', 'f'] rfl
    exact ⟨result, hresult, hmoved⟩
  · obtain ⟨-, hslices⟩ := (reading_local (· == ['f'])
      ['1', '+', 'f', '(', '1', ')', '<', 'f']).2
        [⟨.number (Decimal.literalValue ['1']), ⟨0, 1⟩⟩, ⟨.operator .add, ⟨1, 2⟩⟩,
          ⟨.call ['f'] ['1'] 4, ⟨2, 6⟩⟩, ⟨.operator .lt, ⟨6, 7⟩⟩, ⟨.statement ['f'], ⟨7, 8⟩⟩] rfl
    exact hslices [⟨.number (Decimal.literalValue ['1']), ⟨0, 1⟩⟩, ⟨.operator .add, ⟨1, 2⟩⟩]
      [⟨.call ['f'] ['1'] 4, ⟨2, 6⟩⟩, ⟨.operator .lt, ⟨6, 7⟩⟩] [⟨.statement ['f'], ⟨7, 8⟩⟩]
      ⟨.call ['f'] ['1'] 4, ⟨2, 6⟩⟩ ⟨.operator .lt, ⟨6, 7⟩⟩ rfl rfl rfl

end Assertions
