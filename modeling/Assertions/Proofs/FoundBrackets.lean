import Assertions.Proofs.Partners
import Assertions.Proofs.Unlimited

/-!
# The brackets that faults are about

A fault about a bracket is raised in a token, in a group or in the place of an operand.
`Fault.FindsIn` is what there is at the bracket in the text around it, and it is followed from the
token or the operand that fails to the whole text (`findsIn_operand`, `findsIn_fragment`).

An argument is a balanced text. In it no bracket of a call is open, a group is followed by something
else, and a stray bracket cannot stand at the front or behind a whole expression. So what is found
in an argument does not change in the text around the call (`within`).
-/

namespace Assertions

open Nesting

variable {names : Text → Bool} {offset : Nat} {text front : Text} {fault : Fault}

/-! ### Argument lists -/

theorem Balanced.quotedThrough_eq (h : Balanced text) : quotedThrough false text = false := by
  have hafter := congrArg Nesting.quoted (h 0).1
  rwa [Nesting.quoted_after] at hafter

/-- The arguments in a balanced list are balanced. -/
theorem balanced_of_splitArguments {args : Text} {list : List Text}
    (h : splitArguments args = placed 0 list) (hargs : Balanced args) :
    ∀ piece ∈ list, Balanced piece := by
  rcases eq_pieces_of_splitArguments h with rfl | rfl
  · exact List.forall_mem_nil _
  · obtain ⟨hfirst, hshields, hothers⟩ := after_pieces (n := .outermost) (hargs 0).1 (hargs 0).2
    exact List.forall_mem_cons.2 ⟨balanced_of_outermost hfirst hshields, hothers⟩

/-- The argument list of a call that is read is balanced. -/
theorem Token.balanced_of_read {lexeme : Lexeme} {name args : Text} {argsAt : Nat}
    (h : Token.read names offset text = .ok lexeme)
    (htoken : lexeme.token = .call name args argsAt) : Balanced args := by
  obtain ⟨htext, hlexeme⟩ := Token.isLexeme_read h
  obtain ⟨token, spelled, rest⟩ := lexeme
  cases htoken
  cases hlexeme with
  | call hname hknown _ =>
    obtain ⟨hread, htake, hdrop⟩ := Token.read_name names offset hname
      (endsName_openBracket (args ++ Symbol.closeBracket :: rest))
    have hwhole : text = name ++ Symbol.openBracket :: (args ++ Symbol.closeBracket :: rest) := by
      simpa using htext
    rw [hwhole, hread, readName] at h
    simp only [htake, hdrop, hknown, Bool.not_true, Bool.false_eq_true, if_false,
      beq_self_eq_true, if_true] at h
    cases hclose : enclosed? (args ++ Symbol.closeBracket :: rest) with
    | none =>
      rw [hclose] at h
      cases h
    | some found =>
      rw [hclose] at h
      cases h
      exact balanced_of_enclosed? hclose

/-- Whether the argument lists of all calls are balanced. -/
def HasBalancedArgs (tokens : List PlacedToken) : Prop :=
  ∀ placed ∈ tokens, ∀ name args argsAt, placed.token = .call name args argsAt → Balanced args

theorem HasBalancedArgs.of_suffix {tokens more : List PlacedToken} (h : HasBalancedArgs tokens)
    (hmore : more <:+ tokens) : HasBalancedArgs more :=
  fun placed hmem => h placed (hmore.subset hmem)

theorem Reads.hasBalancedArgs {rest : Text} {tokens : List PlacedToken}
    (h : Reads names offset text tokens rest) : HasBalancedArgs tokens := by
  induction h with
  | done => exact List.forall_mem_nil _
  | next hread _ ih =>
    exact List.forall_mem_cons.2 ⟨fun name args argsAt => Token.balanced_of_read hread, ih⟩

/-! ### What is found at a bracket -/

/-- Whether a text ends with an opening bracket or an operator, so that an operand has to follow. -/
def EndsOpen (before : Text) : Prop :=
  (∃ front, before = front ++ [Symbol.openBracket]) ∨
    ∃ front, ∃ op : Operator, before = front ++ op.spelling

theorem EndsOpen.append {before : Text} (h : EndsOpen before) (front : Text) :
    EndsOpen (front ++ before) := by
  obtain ⟨more, rfl⟩ | ⟨more, op, rfl⟩ := h
  · exact .inl ⟨front ++ more, (List.append_assoc _ _ _).symm⟩
  · exact .inr ⟨front ++ more, op, (List.append_assoc _ _ _).symm⟩

/-- Whether a cause is about a bracket of an expression. -/
def Cause.isAboutBracket : Cause → Bool
  | .openCall _ | .openGroup | .strayClose => true
  | _ => false

/-- What a cause about a bracket finds at it, where `before` is the text in front of the bracket and
`rest` the text from it on. -/
def Cause.Finds (names : Text → Bool) (before rest : Text) : Cause → Prop
  | .openCall name =>
    name <:+ before ∧ ∃ after, rest = Symbol.openBracket :: after ∧ enclosed? after = none
  | .openGroup =>
    ∃ (p : Phrase) (after : Text), rest = Symbol.openBracket :: p.text ++ after ∧
      p.IsSpelled names ∧ after.head? ≠ some Symbol.closeBracket
  | .strayClose =>
    (before = [] ∨ EndsOpen before) ∧ ∃ after, rest = Symbol.closeBracket :: after
  | _ => True

/-- Whether the bracket that a fault is about is found in a text at position `offset`, outside
literals. -/
def Fault.FindsIn (names : Text → Bool) (offset : Nat) (text : Text) (fault : Fault) : Prop :=
  fault.cause.isAboutBracket = true →
    ∃ before rest, text = before ++ rest ∧ fault.span.start = offset + Text.size before ∧
      quotedThrough false before = false ∧ fault.cause.Finds names before rest

/-- A closing bracket behind a whole expression that starts the text. -/
def Fault.IsLeftOver (names : Text → Bool) (offset : Nat) (text : Text) (fault : Fault) : Prop :=
  fault.cause = .strayClose ∧
    ∃ (p : Phrase) (after : Text), text = p.text ++ Symbol.closeBracket :: after ∧
      p.IsSpelled names ∧ fault.span.start = offset + Text.size p.text

namespace Fault.FindsIn

theorem of_other (h : fault.cause.isAboutBracket = false) : fault.FindsIn names offset text := by
  intro habout
  rw [h] at habout
  cases habout

/-- What is found behind a text is found in the whole. A stray bracket may be the first character
behind, so an operand has to be due there. -/
theorem behind (h : fault.FindsIn names (offset + Text.size front) text)
    (hclosed : quotedThrough false front = false)
    (hstray : fault.cause = .strayClose → EndsOpen front) :
    fault.FindsIn names offset (front ++ text) := by
  intro habout
  obtain ⟨before, rest, rfl, hstart, hbefore, hfinds⟩ := h habout
  refine ⟨front ++ before, rest, by simp, ?_, ?_, ?_⟩
  · rw [hstart, Text.size_append, Nat.add_assoc]
  · rw [quotedThrough_append, hclosed, hbefore]
  · cases hcause : fault.cause with
    | openCall name =>
      rw [hcause] at hfinds
      exact ⟨hfinds.1.trans (List.suffix_append front before), hfinds.2⟩
    | openGroup =>
      rw [hcause] at hfinds
      exact hfinds
    | strayClose =>
      rw [hcause] at hfinds
      obtain ⟨rfl | hopen, hrest⟩ := hfinds
      · rw [List.append_nil]
        exact ⟨.inr (hstray hcause), hrest⟩
      · exact ⟨.inr (hopen.append front), hrest⟩
    | _ => trivial

/-- What is found in a balanced part is found in the whole, whatever is around the part. -/
theorem within {before : Text} (h : fault.FindsIn names (offset + Text.size before) text)
    (hbalanced : Balanced text) (hclosed : quotedThrough false before = false) (after : Text) :
    fault.FindsIn names offset (before ++ text ++ after) := by
  intro habout
  obtain ⟨inner, rest, rfl, hstart, hinner, hfinds⟩ := h habout
  refine ⟨before ++ inner, rest ++ after, by simp, ?_, ?_, ?_⟩
  · rw [hstart, Text.size_append, Nat.add_assoc]
  · rw [quotedThrough_append, hclosed, hinner]
  · cases hcause : fault.cause with
    | openCall name =>
      rw [hcause] at hfinds
      obtain ⟨-, behind, rfl, hopen⟩ := hfinds
      exact absurd hopen (hbalanced.enclosed?_ne_none hinner)
    | openGroup =>
      rw [hcause] at hfinds
      obtain ⟨p, behind, rfl, hp, hhead⟩ := hfinds
      refine ⟨p, behind ++ after, by simp, hp, ?_⟩
      cases behind with
      | nil =>
        exact absurd (hp.selfContained_text.balanced.enclosed?_append [])
          (hbalanced.enclosed?_ne_none hinner)
      | cons c more => exact hhead
    | strayClose =>
      rw [hcause] at hfinds
      obtain ⟨rfl | hopen, behind, rfl⟩ := hfinds
      · exact absurd hbalanced balanced_nil.not_closed
      · exact ⟨.inr (hopen.append before), behind ++ after, rfl⟩
    | _ => trivial

end Fault.FindsIn

/-- In a balanced text nothing is left over behind a whole expression. -/
theorem Fault.IsLeftOver.not_balanced (h : fault.IsLeftOver names offset text) :
    ¬Balanced text := by
  obtain ⟨-, p, after, rfl, hp, -⟩ := h
  exact hp.selfContained_text.balanced.not_closed

/-! ### Tokens -/

theorem Token.IsLexical.findsIn (h : Token.IsLexical offset text fault) :
    fault.FindsIn names offset text ∧ fault.cause ≠ .strayClose := by
  have hlexical := h.cause_eq
  constructor
  · intro habout
    cases hcause : fault.cause with
    | openCall name =>
      obtain ⟨after, rfl, hname, hstart, hopen⟩ := h.openCall name hcause
      exact ⟨name, Symbol.openBracket :: after, rfl, hstart, quotedThrough_name hname false,
        List.suffix_refl name, after, rfl, hopen⟩
    | openGroup | strayClose =>
      rw [hcause] at hlexical
      cases hlexical
    | _ =>
      rw [hcause] at habout
      cases habout
  · intro hcause
    rw [hcause] at hlexical
    cases hlexical

/-- Cutting a text into tokens fails at a token, or because there are too many. -/
theorem findsIn_tokenizeWithin {room : Nat} :
    ∀ {offset : Nat} {text : Text}, tokenizeWithin names room offset text = .error fault →
      fault.FindsIn names offset text ∧ fault.cause ≠ .strayClose := by
  induction room with
  | zero =>
    intro offset text h
    cases text with
    | nil => cases h
    | cons c rest =>
      cases h
      exact ⟨.of_other rfl, by rintro ⟨⟩⟩
  | succ room ih =>
    intro offset text h
    cases text with
    | nil => cases h
    | cons c rest =>
      cases hread : Token.read names offset (c :: rest) with
      | error first =>
        rw [tokenizeWithin_cons, hread] at h
        cases h
        exact (Token.isLexical_read hread).findsIn
      | ok lexeme =>
        obtain ⟨htext, hlexeme⟩ := Token.isLexeme_read hread
        rw [tokenizeWithin_of_read hread] at h
        cases hothers : tokenizeWithin names room (offset + Text.size lexeme.text) lexeme.rest with
        | ok others =>
          rw [hothers] at h
          cases h
        | error later =>
          rw [hothers] at h
          cases h
          obtain ⟨hfinds, hcause⟩ := ih hothers
          rw [htext]
          exact ⟨hfinds.behind hlexeme.quotedThrough_eq fun hstray => absurd hstray hcause, hcause⟩

/-- Only a closing bracket is spelled like one. -/
theorem IsLexeme.eq_closeBracket {token : Token} (h : IsLexeme names offset token text)
    (hhead : text.head? = some Symbol.closeBracket) : token = .closeBracket := by
  have hmark : ¬IsMark Symbol.closeBracket := by
    unfold IsMark
    decide
  cases h with
  | ref side => cases side <;> cases hhead
  | number hdigits => exact absurd (hdigits.isMark _ (List.mem_of_mem_head? hhead)) hmark
  | statement hname => exact absurd (isMark_of_mem_name hname (List.mem_of_mem_head? hhead)) hmark
  | call hname =>
    rename_i name args _ _
    cases name with
    | nil => cases hname
    | cons c rest =>
      exact absurd (isMark_of_mem_name hname (List.mem_of_mem_head? hhead)) hmark
  | operator op => cases op <;> cases hhead
  | closeBracket => rfl
  | _ => cases hhead

/-- A text that starts with a closing bracket is cut into tokens of which the first is one. -/
theorem IsWritten.exists_closeBracket {tokens : List PlacedToken}
    (h : IsWritten names offset text tokens) (hhead : text.head? = some Symbol.closeBracket) :
    ∃ span more, tokens = ⟨.closeBracket, span⟩ :: more := by
  cases tokens with
  | nil =>
    cases h
    cases hhead
  | cons first more =>
    obtain ⟨token, span⟩ := first
    obtain ⟨spelled, others, rfl, -, htoken, -, -⟩ := h.of_cons
    have hspelled : spelled.head? = some Symbol.closeBracket := by
      cases spelled with
      | nil => exact absurd rfl htoken.text_ne_nil
      | cons c tail => exact hhead
    exact ⟨span, more, by rw [htoken.eq_closeBracket hspelled]⟩

/-! ### Operands -/

/-- Whether the brackets that the faults of a reader are about are found in the text that its tokens
make up. -/
def OperandReader.FindsIn (names : Text → Bool) (reader : OperandReader) : Prop :=
  ∀ offset text tokens fault, IsWritten names offset text tokens → HasBalancedArgs tokens →
    (reader tokens).result = .error fault → fault.FindsIn names offset text

theorem OperandReader.FindsIn.expression {reader : OperandReader} (h : reader.FindsIn names) :
    (expression reader).FindsIn names := by
  intro offset text tokens fault hwritten hargs herror
  obtain ⟨more, hmore, hfault⟩ := exists_of_foldr_level_eq_error herror
  have hargs' := hargs.of_suffix hmore.isSuffix
  obtain rfl | ⟨front, op, span, rfl⟩ := hmore
  · exact h _ _ _ _ hwritten hargs hfault
  · obtain ⟨before, rest, rfl, hbefore, hrest⟩ := hwritten.of_append
    obtain ⟨spelled, part, rfl, -, hop, -, hpart⟩ := hrest.of_cons
    have hspelled := hop.quotedThrough_eq
    cases hop
    have hfinds := h _ _ _ _ hpart hargs' hfault
    have hclosed : quotedThrough false (before ++ op.spelling) = false := by
      rw [quotedThrough_append, hbefore.quotedThrough_eq, hspelled]
    rw [Nat.add_assoc, ← Text.size_append] at hfinds
    rw [← List.append_assoc]
    exact hfinds.behind hclosed fun _ => .inr ⟨before, op, rfl⟩

/-- The expression that is read from the tokens of a text starts the text. -/
theorem IsWritten.exists_phrase {tokens rest : List PlacedToken} {room stop : Nat} {e : Expr}
    (h : IsWritten names offset text tokens)
    (hread : (expression (operand names room stop) tokens).Gives e rest) :
    ∃ (p : Phrase) (after : Text), text = p.text ++ after ∧ p.IsSpelled names ∧
      IsWritten names (offset + Text.size p.text) after rest := by
  obtain ⟨front, rfl, haccepted, -⟩ :=
    (exact_expression (exact_operand names room stop)).sound _ _ _ hread
  obtain ⟨before, after, rfl, hbefore, hafter⟩ := h.of_append
  obtain ⟨p, hp, rfl, -⟩ := haccepted.yields.isPhrase offset before hbefore
  exact ⟨p, after, rfl, hp, hafter⟩

/-- In front of an expression that no closing bracket follows, an opening bracket is one of a group
that is called open. -/
theorem IsWritten.findsIn_openGroup {tokens left : List PlacedToken} {room stop : Nat} {e : Expr}
    (h : IsWritten names (offset + 1) text tokens)
    (hread : (expression (operand names room stop) tokens).Gives e left)
    (hleft : ∀ span more, left ≠ ⟨.closeBracket, span⟩ :: more) :
    (Fault.mk .openGroup ⟨offset, offset + 1⟩).FindsIn names offset
      (Symbol.openBracket :: text) := by
  intro _
  obtain ⟨p, after, rfl, hp, hafter⟩ := h.exists_phrase hread
  refine ⟨[], _, rfl, rfl, rfl, p, after, rfl, hp, ?_⟩
  intro hhead
  obtain ⟨span, more, hmore⟩ := hafter.exists_closeBracket hhead
  exact hleft span more hmore

/-- A group fails in its expression, or at its opening bracket if no closing bracket follows the
expression. -/
theorem findsIn_closeGroup {room stop : Nat} {opening : Span} {tokens : List PlacedToken}
    (h : (operand names room stop).FindsIn names)
    (hwritten : IsWritten names offset text (⟨.openBracket, opening⟩ :: tokens))
    (hargs : HasBalancedArgs tokens)
    (herror : (closeGroup opening (expression (operand names room stop) tokens)).result =
      .error fault) : fault.FindsIn names offset text := by
  obtain ⟨lexeme, rest, rfl, rfl, hopen, -, hrest⟩ := hwritten.of_cons
  cases hopen
  rcases eq_of_closeGroup_eq_error herror with hread | ⟨rfl, e, left, hread, hleft⟩
  · have hinner := h.expression _ rest tokens fault hrest hargs hread
    exact hinner.behind rfl fun _ => .inl ⟨[], rfl⟩
  · exact hrest.findsIn_openGroup hread hleft

/-- Reading all the tokens fails in an operand or at the token behind the expression. -/
theorem findsIn_complete {room : Nat} {tokens : List PlacedToken}
    (h : ∀ stop, (operand names room stop).FindsIn names)
    (hwritten : IsWritten names offset text tokens) (hargs : HasBalancedArgs tokens)
    (herror : complete (operand names room) tokens = .error fault) :
    fault.FindsIn names offset text ∨ fault.IsLeftOver names offset text := by
  cases tokens with
  | nil =>
    cases herror
    exact .inl (.of_other rfl)
  | cons first others =>
    rcases eq_of_complete_eq_error (List.cons_ne_nil first others) herror with
      hread | ⟨e, token, more, hread, hcause⟩
    · exact .inl ((h _).expression _ _ _ _ hwritten hargs hread)
    · rcases hcause with ⟨rfl, hcause⟩ | hcause
      · obtain ⟨p, after, rfl, hp, hafter⟩ := hwritten.exists_phrase hread
        obtain ⟨lexeme, rest, rfl, hspan, hclose, -, -⟩ := hafter.of_cons
        cases hclose
        exact .inr ⟨hcause, p, rest, rfl, hp, by rw [hspan]⟩
      · exact .inl (.of_other (by rw [hcause]; rfl))

theorem findsIn_fragment {room : Nat} (h : ∀ stop, (operand names room stop).FindsIn names)
    (hcondensed : condense text = text)
    (herror : fragment (operand names room) names offset text = .error fault) :
    fault.FindsIn names offset text ∨ fault.IsLeftOver names offset text := by
  rw [fragment_eq_bind] at herror
  cases htokens : tokenize names offset text with
  | error first =>
    rw [htokens] at herror
    cases herror
    exact .inl (findsIn_tokenizeWithin htokens).1
  | ok tokens =>
    rw [htokens] at herror
    exact findsIn_complete h (isWritten_of_tokenizeWithin htokens hcondensed).1
      (tokenizeWithin_eq_ok_iff.1 htokens).1.hasBalancedArgs herror

/-- The fault of an argument is found in the argument list. -/
theorem findsIn_arguments {room : Nat} (h : ∀ stop, (operand names room stop).FindsIn names)
    {name args : Text} (hcondensed : condense args = args) (hbalanced : Balanced args)
    (herror : arguments (fragment (operand names room) names) name offset (splitArguments args) =
      .error fault) : fault.FindsIn names offset args := by
  obtain ⟨list, hsplit, hjoin, hpieces⟩ := exists_pieces hcondensed
  have hbalanceds := balanced_of_splitArguments hsplit hbalanced
  rw [hsplit] at herror
  obtain ⟨start, piece, hmem, hcases⟩ := exists_of_arguments_eq_error herror
  rcases hcases with ⟨-, rfl⟩ | ⟨-, hread⟩
  · exact .of_other rfl
  · obtain ⟨before, after, htext, rfl, hclosed⟩ := exists_of_mem_placed hmem
    have hpiece : piece ∈ list := by
      rw [← map_snd_placed 0 list]
      exact List.mem_map_of_mem hmem
    rw [← hjoin, htext]
    rw [Nat.zero_add] at hread
    have hfinds := (findsIn_fragment h (hpieces piece hpiece) hread).resolve_right
      fun hleft => hleft.not_balanced (hbalanceds piece hpiece)
    exact hfinds.within (hbalanceds piece hpiece)
      (hclosed fun other hother => (hbalanceds other hother).quotedThrough_eq) after

/-- The fault of a call is found in its text. -/
theorem findsIn_call {room : Nat} (h : ∀ stop, (operand names room stop).FindsIn names)
    {name args : Text} {argsAt : Nat} {span : Span} {tokens : List PlacedToken}
    (hwritten : IsWritten names offset text (⟨.call name args argsAt, span⟩ :: tokens))
    (hbalanced : Balanced args)
    (herror : arguments (fragment (operand names room) names) name argsAt (splitArguments args) =
      .error fault) : fault.FindsIn names offset text := by
  obtain ⟨lexeme, rest, rfl, -, hcall, hcondensed, -⟩ := hwritten.of_cons
  cases hcall with
  | call hname hknown _ =>
    have hargs := findsIn_arguments h (condense_args_eq hname hcondensed) hbalanced herror
    have hsize : offset + Text.size name + 1 =
        offset + Text.size (name ++ [Symbol.openBracket]) := by
      rw [Text.size_append, ← Nat.add_assoc]
      rfl
    have hclosed : quotedThrough false (name ++ [Symbol.openBracket]) = false := by
      rw [quotedThrough_append, quotedThrough_name hname]
      rfl
    rw [hsize] at hargs
    have hwhole := hargs.within hbalanced hclosed (Symbol.closeBracket :: rest)
    simpa using hwhole

/-- The bracket that the fault of an operand is about is found in the text from that operand on. The
induction is on the room, as the arguments of a call and what a group holds are read with less of
it. -/
theorem findsIn_operand (names : Text → Bool) (room : Nat) :
    ∀ stop, (operand names room stop).FindsIn names := by
  induction room using Nat.strongRecOn with
  | ind room ih =>
    intro stop offset text tokens fault hwritten hargs herror
    cases tokens with
    | nil =>
      rw [operand_nil] at herror
      cases herror
      exact .of_other rfl
    | cons first rest =>
      obtain ⟨token, span⟩ := first
      obtain ⟨hfirst, hrest⟩ := List.forall_mem_cons.1 hargs
      -- Calls and opening brackets are the only tokens that need room.
      cases token with
      | ref | string | number | statement => simp [operand, Outcome.done] at herror
      | operator op =>
        rw [operand_operator] at herror
        rw [eq_of_signedNumber_eq_error herror]
        exact .of_other rfl
      | closeBracket =>
        rw [operand_closeBracket] at herror
        cases herror
        obtain ⟨lexeme, after, rfl, rfl, hclose, -, -⟩ := hwritten.of_cons
        cases hclose
        exact fun _ => ⟨[], _, rfl, rfl, rfl, .inl rfl, after, rfl⟩
      | call name args argsAt =>
        cases room with
        | zero =>
          cases herror
          exact .of_other rfl
        | succ room =>
          exact findsIn_call (ih room (Nat.lt_succ_self room)) hwritten
            (hfirst name args argsAt rfl) (arguments_eq_error_of_operand herror)
      | openBracket =>
        cases room with
        | zero =>
          cases herror
          exact .of_other rfl
        | succ room =>
          exact findsIn_closeGroup (ih room (Nat.lt_succ_self room) stop) hwritten hrest herror

end Assertions
