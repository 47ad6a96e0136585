import Assertions.Proofs.AssertionGrammar
import Assertions.Proofs.Faults

/-!
# Faults of expressions and assertions

Every fault in reading an expression or an assertion points into the text that was given, without
its loose blanks (`span_of_fault`). A fault arises in the cutting into tokens, in an operand, in an
argument or in a part of an assertion, and each of these stands somewhere in the text.

Arguments and guards close their literals, because the brackets around them were found with literals
in mind. So the fault of an open literal never arises in them, and the quote that it points at has no
partner in the whole text.
-/

namespace Assertions

variable {names : Text → Bool} {offset : Nat} {text : Text} {fault : Fault}

/-! ### Operands -/

/-- Whether the faults of a reader point into the text that its tokens make up. The text ends at
`stop`. -/
def OperandReader.PointsInto (names : Text → Bool) (stop : Nat) (reader : OperandReader) : Prop :=
  ∀ offset text tokens fault, IsWritten names offset text tokens →
    stop = offset + Text.size text → (reader tokens).result = .error fault →
    fault.PointsInto names offset text

theorem OperandReader.PointsInto.expression {stop : Nat} {reader : OperandReader}
    (h : reader.PointsInto names stop) : (expression reader).PointsInto names stop := by
  intro offset text tokens fault hwritten hstop herror
  obtain ⟨more, hmore, hfault⟩ := exists_of_foldr_level_eq_error herror
  obtain ⟨part, start, hstands, hsize, hpart⟩ := hwritten.of_suffix hmore.isSuffix
  have hpoints := h _ part more fault hpart (by omega) hfault
  exact hpoints.within hpart.quotedThrough_eq hstands

section

variable {readerUpTo : Nat → OperandReader}
  (h : ∀ stop, (readerUpTo stop).PointsInto names stop)
include h

theorem pointsInto_complete {tokens : List PlacedToken}
    (hwritten : IsWritten names offset text tokens) (hne : text ≠ [] ∨ offset = 0)
    (herror : complete readerUpTo tokens = .error fault) : fault.PointsInto names offset text := by
  cases tokens with
  | nil =>
    -- The fault of a text without tokens is at position 0, wherever the text stands.
    cases hwritten
    cases herror
    rw [hne.resolve_left fun hnil => hnil rfl]
    exact ⟨[], [], [], rfl, rfl, trivial⟩
  | cons first others =>
    have hne := List.cons_ne_nil first others
    have hstop := hwritten.endOf_eq hne
    have hexpression := (h (endOf (first :: others))).expression offset text _ fault hwritten hstop
    rcases eq_of_complete_eq_error hne herror with hread | ⟨e, token, more, hread, hcause⟩
    · exact hexpression hread
    · have hmore := hread.isSuffix.trans (List.suffix_cons first others)
      obtain ⟨cause, span⟩ := fault
      obtain ⟨rfl, rfl⟩ | rfl := hcause
      · exact hwritten.pointsInto_strayClose hmore
      · exact hwritten.pointsInto_token hmore fun _ _ _ _ => trivial

theorem pointsInto_fragment (hcondensed : condense text = text) (hne : text ≠ [] ∨ offset = 0)
    (herror : fragment readerUpTo names offset text = .error fault) :
    fault.PointsInto names offset text := by
  rw [fragment_eq_bind] at herror
  cases htokens : tokenize names offset text with
  | error first =>
    rw [htokens] at herror
    cases herror
    exact pointsInto_tokenizeWithin htokens
  | ok tokens =>
    rw [htokens] at herror
    exact pointsInto_complete h (isWritten_of_tokenizeWithin htokens hcondensed).1 hne herror

end

/-! ### Arguments -/

/-- The pieces of a text that closes its literals close theirs. -/
theorem quotedThrough_pieces {n : Nesting} {text : Text}
    (h : quotedThrough n.quoted text = false) :
    quotedThrough n.quoted (pieces n text).1 = false ∧
      ∀ piece ∈ (pieces n text).2, quotedThrough false piece = false := by
  induction text generalizing n with
  | nil => exact ⟨h, by simp [pieces]⟩
  | cons c rest ih =>
    rw [quotedThrough_cons, ← Nesting.quoted_step] at h
    obtain ⟨hfirst, hothers⟩ := ih h
    simp only [pieces]
    split
    · rename_i hcut
      simp only [Bool.and_eq_true, beq_iff_eq, Nesting.isOutermost, Bool.not_eq_true'] at hcut
      have hunquoted : (n.step c).quoted = false := by
        rw [Nesting.quoted_step, hcut.1, hcut.2.2]
        rfl
      rw [hunquoted] at hfirst
      exact ⟨hcut.2.2, List.forall_mem_cons.2 ⟨hfirst, hothers⟩⟩
    · rw [quotedThrough_cons, ← Nesting.quoted_step]
      exact ⟨hfirst, hothers⟩

theorem map_snd_placed (start : Nat) (list : List Text) :
    (placed start list).map Prod.snd = list := by
  induction list generalizing start with
  | nil => rfl
  | cons first others ih => rw [placed, List.map_cons, ih]

theorem length_placed (start : Nat) (list : List Text) :
    (placed start list).length = list.length := by
  rw [← List.length_map Prod.snd, map_snd_placed]

/-- The arguments in a list are its pieces, if there are any. -/
theorem eq_pieces_of_splitArguments {args : Text} {list : List Text}
    (h : splitArguments args = placed 0 list) :
    list = [] ∨ list = (pieces .outermost args).1 :: (pieces .outermost args).2 := by
  have hlist := congrArg (List.map Prod.snd) h
  rw [map_snd_placed] at hlist
  rw [← hlist]
  unfold splitArguments
  split
  · exact .inl rfl
  · exact .inr (map_snd_placed 0 _)

/-- The arguments in a list that closes its literals close theirs. -/
theorem quotedThrough_of_splitArguments {args : Text} {list : List Text}
    (h : splitArguments args = placed 0 list) (hargs : quotedThrough false args = false) :
    ∀ piece ∈ list, quotedThrough false piece = false := by
  rcases eq_pieces_of_splitArguments h with rfl | rfl
  · exact List.forall_mem_nil _
  · exact List.forall_mem_cons.2 (quotedThrough_pieces (n := .outermost) hargs)

/-- Pieces stand in a list where they are said to be. In front of a piece no literal is open if the
pieces close theirs. -/
theorem exists_of_mem_placed {list : List Text} {start at' : Nat} {piece : Text}
    (h : (at', piece) ∈ placed start list) :
    ∃ before after, joinCommas list = before ++ piece ++ after ∧ at' = start + Text.size before ∧
      ((∀ other ∈ list, quotedThrough false other = false) →
        quotedThrough false before = false) := by
  induction list generalizing start with
  | nil => cases h
  | cons first others ih =>
    rcases List.mem_cons.1 h with heq | hmem
    · cases heq
      cases others with
      | nil => exact ⟨[], [], by simp [joinCommas], rfl, fun _ => rfl⟩
      | cons next rest =>
        exact ⟨[], Symbol.comma :: joinCommas (next :: rest), rfl, rfl, fun _ => rfl⟩
    · obtain ⟨before, after, hjoin, rfl, hclosed⟩ := ih hmem
      cases others with
      | nil => cases hmem
      | cons next rest =>
        refine ⟨first ++ Symbol.comma :: before, after, ?_, ?_, ?_⟩
        · rw [joinCommas_cons_cons, hjoin]
          simp
        · have hcomma : Symbol.comma.utf8Size = 1 := rfl
          simp only [Text.size_append, Text.size_cons, hcomma]
          omega
        · intro hlist
          obtain ⟨hfirst, hothers⟩ := List.forall_mem_cons.1 hlist
          rw [quotedThrough_append, hfirst]
          exact hclosed hothers

/-- Arguments fail where one of them is empty or cannot be read. -/
theorem exists_of_arguments_eq_error {readText : (offset : Nat) → Text → Except Fault Expr}
    {name : Text} {offset : Nat} {list : List (Nat × Text)}
    (h : arguments readText name offset list = .error fault) :
    ∃ start text, (start, text) ∈ list ∧
      (text = [] ∧ fault = ⟨.emptyArgument name, ⟨offset + start, offset + start⟩⟩ ∨
        text ≠ [] ∧ readText (offset + start) text = .error fault) := by
  induction list with
  | nil => cases h
  | cons first others ih =>
    obtain ⟨start, text⟩ := first
    by_cases htext : text = []
    · subst htext
      cases h
      exact ⟨start, [], List.mem_cons_self, .inl ⟨rfl, rfl⟩⟩
    · rw [arguments_cons _ _ _ _ htext] at h
      cases hread : readText (offset + start) text with
      | error first =>
        rw [hread] at h
        cases h
        exact ⟨start, text, List.mem_cons_self, .inr ⟨htext, hread⟩⟩
      | ok e =>
        rw [hread] at h
        cases hothers : arguments readText name offset others with
        | ok es =>
          simp only [Except.bind, hothers] at h
          cases h
        | error later =>
          simp only [Except.bind, hothers] at h
          cases h
          obtain ⟨start', text', hmem, hcases⟩ := ih hothers
          exact ⟨start', text', List.mem_cons_of_mem _ hmem, hcases⟩

/-- The fault of an argument points into the argument list. -/
theorem pointsInto_arguments {readText : (offset : Nat) → Text → Except Fault Expr}
    {name args : Text} (hcondensed : condense args = args)
    (hclosed : quotedThrough false args = false)
    (h : ∀ offset text fault, condense text = text → text ≠ [] →
      readText offset text = .error fault → fault.PointsInto names offset text)
    (herror : arguments readText name offset (splitArguments args) = .error fault) :
    fault.PointsInto names offset args := by
  obtain ⟨list, hsplit, hjoin, hpieces⟩ := exists_pieces hcondensed
  have hquotes := quotedThrough_of_splitArguments hsplit hclosed
  rw [hsplit] at herror
  obtain ⟨start, piece, hmem, hcases⟩ := exists_of_arguments_eq_error herror
  obtain ⟨before, after, htext, rfl, -⟩ := exists_of_mem_placed hmem
  have hstands : StandsAt piece (Text.size before) args :=
    ⟨before, after, by rw [← hjoin, htext], rfl⟩
  have hpiece : piece ∈ list := by
    rw [← map_snd_placed 0 list]
    exact List.mem_map_of_mem hmem
  rw [Nat.zero_add] at hcases
  rcases hcases with ⟨rfl, rfl⟩ | ⟨hne, hread⟩
  · have hempty : (Fault.mk (.emptyArgument name) ⟨offset + Text.size before,
        offset + Text.size before⟩).PointsInto names (offset + Text.size before) [] :=
      ⟨[], [], [], rfl, rfl, rfl⟩
    exact hempty.within rfl hstands
  · exact (h _ _ _ (hpieces piece hpiece) hne hread).within (hquotes piece hpiece) hstands

/-! ### Calls and groups -/

/-- The fault of a group points into the text from its opening bracket on. -/
theorem pointsInto_closeGroup {stop : Nat} {reader : OperandReader} {opening : Span}
    {tokens : List PlacedToken} (h : reader.PointsInto names stop)
    (hwritten : IsWritten names offset text (⟨.openBracket, opening⟩ :: tokens))
    (hstop : stop = offset + Text.size text)
    (herror : (closeGroup opening (reader tokens)).result = .error fault) :
    fault.PointsInto names offset text := by
  have hopen : (Fault.mk .openGroup opening).PointsInto names offset text := by
    refine hwritten.pointsInto_token (List.suffix_refl _) ?_
    rintro at' lexeme after ⟨⟩
    rfl
  obtain ⟨lexeme, rest, rfl, -, htoken, -, hrest⟩ := hwritten.of_cons
  rcases eq_of_closeGroup_eq_error herror with hread | ⟨rfl, -⟩
  · have hinner := h _ rest tokens fault hrest (by rw [hstop, Text.size_append, Nat.add_assoc])
    exact (hinner hread).behind htoken.quotedThrough_eq
  · exact hopen

/-- The fault of an operator in the place of an operand points at it. -/
theorem pointsInto_signedNumber {op : Operator} {span : Span} {tokens : List PlacedToken}
    (hwritten : IsWritten names offset text (⟨.operator op, span⟩ :: tokens))
    (herror : (signedNumber op span tokens).result = .error fault) :
    fault.PointsInto names offset text := by
  rw [eq_of_signedNumber_eq_error herror]
  refine hwritten.pointsInto_token (List.suffix_refl _) ?_
  rintro at' lexeme after ⟨⟩
  rfl

/-- The fault of a call points into its text. -/
theorem pointsInto_call {readText : (offset : Nat) → Text → Except Fault Expr} {name args : Text}
    {argsAt : Nat} {span : Span} {tokens : List PlacedToken}
    (hwritten : IsWritten names offset text (⟨.call name args argsAt, span⟩ :: tokens))
    (h : ∀ offset text fault, condense text = text → text ≠ [] →
      readText offset text = .error fault → fault.PointsInto names offset text)
    (herror : arguments readText name argsAt (splitArguments args) = .error fault) :
    fault.PointsInto names offset text := by
  obtain ⟨lexeme, rest, rfl, -, htoken, hcondensed, -⟩ := hwritten.of_cons
  cases htoken with
  | call hname hknown hclosed =>
    have hargs := pointsInto_arguments (condense_args_eq hname hcondensed) hclosed h herror
    rw [Nat.add_assoc] at hargs
    refine hargs.within hclosed ⟨name ++ [Symbol.openBracket], Symbol.closeBracket :: rest, ?_, ?_⟩
    · simp
    · rw [Text.size_append]
      rfl

/-- The fault of an operand points into the text from that operand on. The induction is on the room,
as the arguments of a call and what a group holds are read with less of it. -/
theorem pointsInto_operand (names : Text → Bool) (room : Nat) :
    ∀ stop, (operand names room stop).PointsInto names stop := by
  induction room using Nat.strongRecOn with
  | ind room ih =>
    intro stop offset text tokens fault hwritten hstop herror
    cases tokens with
    | nil =>
      cases hwritten
      simp only [operand, Outcome.fail, Except.error.injEq] at herror
      subst herror
      exact ⟨[], [], [], rfl, by rw [hstop]; rfl, trivial⟩
    | cons first rest =>
      obtain ⟨token, span⟩ := first
      -- Calls and opening brackets are the only tokens that need room.
      cases token with
      | ref | string | number | statement => simp [operand, Outcome.done] at herror
      | operator op =>
        rw [operand] at herror
        exact pointsInto_signedNumber hwritten herror
      | closeBracket =>
        simp only [operand, Outcome.fail, Except.error.injEq] at herror
        subst herror
        exact hwritten.pointsInto_strayClose (List.suffix_refl _)
      | call name args argsAt =>
        cases room with
        | zero =>
          cases herror
          exact hwritten.pointsInto_token (List.suffix_refl _) fun _ _ _ _ => trivial
        | succ room =>
          exact pointsInto_call hwritten (fun at' piece first hcondensed hne hread =>
            pointsInto_fragment (ih room (Nat.lt_succ_self room)) hcondensed (.inl hne) hread)
            (arguments_eq_error_of_operand herror)
      | openBracket =>
        cases room with
        | zero =>
          cases herror
          exact hwritten.pointsInto_token (List.suffix_refl _) fun _ _ _ _ => trivial
        | succ room =>
          have hinner := (ih room (Nat.lt_succ_self room) stop).expression
          exact pointsInto_closeGroup hinner hwritten hstop herror

/-- The fault of a text points into the text without its loose blanks. -/
theorem pointsInto_ofText {source : Text} (h : Expr.ofText names source = .error fault) :
    fault.PointsInto names 0 (condense source) :=
  pointsInto_fragment (pointsInto_operand names (roomAt 0)) (condense_condense source) (.inr rfl) h

/-! ### Assertions -/

section

variable {functions : Repertoire}

/-- The fault of an expression at position `offset` points into its text. -/
theorem pointsInto_compile (hcondensed : condense text = text)
    (h : (Expr.compile functions offset text).result = .error (.fault fault)) :
    fault.PointsInto functions.contains offset text := by
  rw [Expr.result_compile] at h
  cases hread : Expr.ofText functions.contains text with
  | ok e =>
    rw [hread] at h
    cases h
  | error inner =>
    rw [hread] at h
    cases h
    have hinner := pointsInto_ofText hread
    rw [hcondensed] at hinner
    exact hinner.shift offset

/-- The fault of an activation points into its text. -/
theorem pointsInto_compile_activation (hcondensed : condense text = text)
    (h : (Activation.compile functions text).result = .error (.fault fault)) :
    fault.PointsInto functions.contains 0 text := by
  unfold Activation.compile at h
  split at h
  · cases h
  · split at h
    · rename_i rest hrest
      have htext := Text.eq_of_dropWord? hrest
      split at h
      · cases h
        exact ⟨Symbol.when, [Symbol.openBracket], rest, htext, rfl, rfl⟩
      · rename_i inside hinside
        have hrest := eq_of_enclosed? hinside
        have hstands : StandsAt inside (Text.size Symbol.when + 1) text :=
          ⟨Symbol.when ++ [Symbol.openBracket], [Symbol.closeBracket], by simp [htext, hrest], rfl⟩
        have hinner : condense inside = inside := by
          rw [htext, hrest] at hcondensed
          exact (condense_go_append_eq_iff.1 (condense_go_append_eq_iff.1 hcondensed).2).1
        rw [Staged.result_andThen] at h
        cases hguard : (Expr.compile functions (Text.size Symbol.when + 1) inside).result with
        | ok e =>
          rw [hguard] at h
          cases h
        | error refusal =>
          rw [hguard] at h
          cases h
          have hpoints := pointsInto_compile hinner hguard
          rw [← Nat.zero_add (Text.size Symbol.when + 1)] at hpoints
          exact hpoints.within (quotedThrough_of_enclosed? hinside) hstands
      · rename_i inside c more hinside
        cases h
        rw [htext, eq_of_enclosed? hinside]
        refine ⟨Symbol.when ++ Symbol.openBracket :: inside ++ [Symbol.closeBracket], c :: more, [],
          by simp, ?_, trivial⟩
        have hopen : Symbol.openBracket.utf8Size = 1 := rfl
        have hclose : Symbol.closeBracket.utf8Size = 1 := rfl
        simp only [Text.size_append, Text.size_cons, Text.size_nil, hopen, hclose]
        congr 1 <;> omega
    · split at h
      · rename_i hname
        split at h
        · cases h
        · rename_i hunknown
          cases h
          simp only [isFunctionName, Bool.and_eq_true] at hname
          refine ⟨[], text, [], by simp, by simp, rfl, hname.1, by simpa using hunknown⟩
      · cases h

/-- The fault of an assertion points into its text without the loose blanks. -/
theorem pointsInto_compile_assertion {source : Text}
    (h : (Assertion.compile functions source).result = .error (.fault fault)) :
    fault.PointsInto functions.contains 0 (condense source) := by
  cases hsplit : Literal.splitOutside? Symbol.colon (condense source) with
  | none =>
    rw [Assertion.result_compile_of_none functions hsplit] at h
    cases h
    exact ⟨condense source, [], [], by simp, by simp, trivial⟩
  | some cut =>
    obtain ⟨before, after⟩ := cut
    have htext := Literal.eq_of_splitOutside?_go hsplit
    have hclosed := Literal.quotedThrough_of_splitOutside?_go hsplit
    have hparts := condense_condense source
    rw [htext] at hparts
    obtain ⟨hbefore, hafter⟩ := condense_go_append_eq_iff.1 hparts
    rw [hclosed] at hafter
    rw [Assertion.result_compile_of_some functions hsplit] at h
    rw [htext]
    cases hactivation : (Activation.compile functions before).result with
    | error refusal =>
      rw [hactivation] at h
      cases h
      exact (pointsInto_compile_activation hbefore hactivation).within hclosed
        ⟨[], Symbol.colon :: after, rfl, rfl⟩
    | ok activation =>
      cases hcondition : (Expr.compile functions (Text.size before + 1) after).result with
      | ok condition =>
        simp only [hactivation, Except.bind, hcondition, Except.map] at h
        cases h
      | error refusal =>
        simp only [hactivation, Except.bind, hcondition, Except.map] at h
        cases h
        -- The condition is the end of the text, so a literal that it leaves open stays open.
        have hpoints := pointsInto_compile (List.cons.inj hafter).2 hcondition
        have hfront : quotedThrough false (before ++ [Symbol.colon]) = false := by
          rw [quotedThrough_append, hclosed]
          rfl
        have hsize : Text.size before + 1 = 0 + Text.size (before ++ [Symbol.colon]) := by
          rw [Nat.zero_add, Text.size_append]
          rfl
        rw [hsize] at hpoints
        have hwhole := hpoints.behind hfront
        rwa [List.append_assoc, List.singleton_append] at hwhole

end

/-- **Faults point at their text.** The span of a fault lies in the text without its loose blanks,
between two of its characters, and marks the part of it that the cause is about. This is so for
expressions and for assertions, however deep in calls, groups and guards the fault arises. -/
theorem span_of_fault {names : Text → Bool} {source : Text} {fault : Fault}
    (h : Expr.ofText names source = .error fault ∨
      ∃ functions : Repertoire, functions.contains = names ∧
        (Assertion.compile functions source).result = .error (.fault fault)) :
    fault.span.start ≤ fault.span.stop ∧ fault.span.stop ≤ Text.size (condense source) ∧
      ∃ before marked after, condense source = before ++ marked ++ after ∧
        fault.span.start = Text.size before ∧ fault.span.text? (condense source) = some marked ∧
        fault.cause.Describes names before marked after := by
  have hpoints : fault.PointsInto names 0 (condense source) := by
    rcases h with hexpr | ⟨functions, rfl, hassertion⟩
    · exact pointsInto_ofText hexpr
    · exact pointsInto_compile_assertion hassertion
  obtain ⟨before, marked, after, htext, hspan, hdescribes⟩ := hpoints
  rw [Nat.zero_add] at hspan
  refine ⟨by rw [hspan]; exact Nat.le_add_right _ _, ?_, before, marked, after, htext, ?_, ?_,
    hdescribes⟩
  · rw [hspan, htext, Text.size_append, Text.size_append]
    exact Nat.le_add_right _ _
  · rw [hspan]
  · rw [hspan, htext]
    exact Text.slice?_append before marked after

/-- An unknown name as an argument in a guard, with blanks around it. -/
theorem span_of_fault_in_guard :
    ∃ functions : Repertoire,
      Repertoire.empty.register ['f'] (.statement fun _ => .missing) = .ok functions ∧
      (Assertion.compile functions ['W', 'H', 'E', 'N', '(', 'f', '(', ' ', 'h', ' ', ')', ')', ':',
        '1']).result = .error (.fault ⟨.unknownFunction ['h'], ⟨7, 8⟩⟩) ∧
      (Span.mk 7 8).text? (condense ['W', 'H', 'E', 'N', '(', 'f', '(', ' ', 'h', ' ', ')', ')',
        ':', '1']) = some ['h'] ∧ functions.contains ['h'] = false := by
  have hcompile : ∀ functions,
      Repertoire.empty.register ['f'] (.statement fun _ => .missing) = .ok functions →
      (Assertion.compile functions ['W', 'H', 'E', 'N', '(', 'f', '(', ' ', 'h', ' ', ')', ')', ':',
        '1']).result = .error (.fault ⟨.unknownFunction ['h'], ⟨7, 8⟩⟩) := by
    rintro functions ⟨⟩
    rfl
  obtain ⟨functions, hfunctions⟩ : ∃ functions,
      Repertoire.empty.register ['f'] (.statement fun _ => .missing) = .ok functions := ⟨_, rfl⟩
  have hfault := hcompile functions hfunctions
  obtain ⟨-, -, before, marked, after, -, -, htext, hmarked, -, hunknown⟩ :=
    span_of_fault (.inr ⟨functions, rfl, hfault⟩)
  rw [hmarked] at htext
  exact ⟨functions, hfunctions, hfault, htext, hunknown⟩

end Assertions
