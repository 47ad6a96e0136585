import Assertions.Proofs.FoundBrackets

/-!
# What faults say about brackets

A fault about a bracket points at one. Whether that bracket has a partner is not always what the
fault says. The brackets of a call that are called open are open. A group is called open if the
expression in it is not followed by a closing bracket, and there may be one further on. A closing
bracket that is called stray may close a bracket if it stands in the place of an operand
(`bracket_faults`).
-/

namespace Assertions

open Nesting

variable {names : Text → Bool} {offset : Nat} {text : Text} {fault : Fault}

/-! ### Whole texts -/

/-- A bracket is what a fault about a bracket marks. -/
theorem Fault.PointsInto.stop_eq (h : fault.PointsInto names offset text)
    (habout : fault.cause.isAboutBracket = true) : fault.span.stop = fault.span.start + 1 := by
  obtain ⟨before, marked, after, -, hspan, hdescribes⟩ := h
  rw [hspan]
  cases hcause : fault.cause with
  | openCall | openGroup | strayClose =>
    rw [hcause] at hdescribes
    obtain rfl := hdescribes
    rfl
  | _ =>
    rw [hcause] at habout
    cases habout

/-- The brackets of a call that are called open are not closed. -/
theorem Fault.FindsIn.of_openCall (h : fault.FindsIn names 0 text) {name : Text}
    (hcause : fault.cause = .openCall name) : closingBracket? text fault.span.start = none := by
  obtain ⟨before, rest, rfl, hstart, -, hfinds⟩ := h (by rw [hcause]; rfl)
  rw [hcause] at hfinds
  obtain ⟨-, after, rfl, hopen⟩ := hfinds
  rw [hstart, Nat.zero_add, closingBracket?_append, hopen]
  rfl

/-- A group that is called open is closed if the text behind its expression closes it. -/
theorem Fault.FindsIn.of_openGroup (h : fault.FindsIn names 0 text)
    (hcause : fault.cause = .openGroup) :
    ∃ (before : Text) (p : Phrase) (after : Text),
      text = before ++ Symbol.openBracket :: p.text ++ after ∧
        fault.span.start = Text.size before ∧ p.IsSpelled names ∧
        after.head? ≠ some Symbol.closeBracket ∧
        (closingBracket? text fault.span.start = none ↔ enclosed? after = none) := by
  obtain ⟨before, rest, rfl, hstart, -, hfinds⟩ := h (by rw [hcause]; rfl)
  rw [hcause] at hfinds
  obtain ⟨p, after, rfl, hp, hhead⟩ := hfinds
  rw [Nat.zero_add] at hstart
  refine ⟨before, p, after, by simp, hstart, hp, hhead, ?_⟩
  rw [hstart, ← List.append_assoc]
  exact closingBracket?_eq_none_iff hp.selfContained_text.balanced

/-- A closing bracket that is called stray closes one if some are open, and then it stands in the
place of an operand. -/
theorem Fault.of_strayClose (h : fault.FindsIn names 0 text ∨ fault.IsLeftOver names 0 text)
    (hcause : fault.cause = .strayClose) :
    ∃ before after, text = before ++ Symbol.closeBracket :: after ∧
      fault.span.start = Text.size before ∧
      (IsPartnered text fault.span.start ↔ (outermost.after before).depth ≠ 0) ∧
      (IsPartnered text fault.span.start → EndsOpen before) := by
  obtain ⟨before, after, rfl, hstart, hbefore, hplace⟩ : ∃ before after,
      text = before ++ Symbol.closeBracket :: after ∧ fault.span.start = 0 + Text.size before ∧
        quotedThrough false before = false ∧
        ((outermost.after before).depth = 0 ∨ EndsOpen before) := by
    rcases h with h | ⟨-, p, after, rfl, hp, hstart⟩
    · obtain ⟨before, rest, rfl, hstart, hbefore, hfinds⟩ := h (by rw [hcause]; rfl)
      rw [hcause] at hfinds
      obtain ⟨hplace, after, rfl⟩ := hfinds
      refine ⟨before, after, rfl, hstart, hbefore, hplace.imp_left ?_⟩
      rintro rfl
      rfl
    · have hbalanced := hp.selfContained_text.balanced
      exact ⟨p.text, after, rfl, hstart, hbalanced.quotedThrough_eq,
        .inl (congrArg Nesting.depth (hbalanced 0).1)⟩
  have hiff : IsPartnered (before ++ Symbol.closeBracket :: after) (Text.size before) ↔
    (outermost.after before).depth ≠ 0 := isPartnered_iff hbefore
  rw [Nat.zero_add] at hstart
  rw [hstart]
  exact ⟨before, after, rfl, rfl, hiff, fun hpartnered => hplace.resolve_left (hiff.1 hpartnered)⟩

/-! ### Texts that cannot be read -/

section

variable {room stop : Nat} {opening span : Span} {tokens rest : List PlacedToken} {e : Expr}

/-- A text cannot be read if its first operand cannot. -/
theorem ofText_eq_error {source : Text} (htokens : tokenize names 0 (condense source) = .ok tokens)
    (hne : tokens ≠ [])
    (h : (operand names (roomAt 0) (endOf tokens) tokens).result = .error fault) :
    Expr.ofText names source = .error fault := by
  rw [Expr.ofText, Expr.ofFragment, fragment_eq_bind, htokens]
  exact complete_eq_error hne (expression_eq_error h)

/-- A group cannot be read if the first operand in it cannot. -/
theorem operand_group_eq_error (h : (operand names room stop tokens).result = .error fault) :
    (operand names (room + 1) stop (⟨.openBracket, opening⟩ :: tokens)).result = .error fault := by
  show (closeGroup opening (expression (operand names room stop) tokens)).result = .error fault
  rcases hread : expression (operand names room stop) tokens with ⟨_ | body, left, hsuffix⟩
  · rw [← expression_eq_error h, hread]
    rfl
  · have hfault := expression_eq_error h
    rw [hread] at hfault
    cases hfault

/-- A group cannot be read if its expression is followed by a token that does not close it. -/
theorem operand_openGroup {token : Token} (haccepted : Accepted names room tokens e)
    (htoken : ∀ op, token ≠ .operator op) (hclose : token ≠ .closeBracket) :
    (operand names (room + 1) stop
      (⟨.openBracket, opening⟩ :: (tokens ++ ⟨token, span⟩ :: rest))).result =
      .error ⟨.openGroup, opening⟩ := by
  have hstops : StopsBelow 1 (⟨token, span⟩ :: rest) := by
    rintro op _ _ ⟨⟩
    exact absurd rfl (htoken op)
  obtain ⟨hresult, hrest⟩ := (exact_expression (exact_operand names room stop)).complete tokens e
    (⟨token, span⟩ :: rest) haccepted e.bindsAtLeast_one hstops
  show (closeGroup opening (expression (operand names room stop)
    (tokens ++ ⟨token, span⟩ :: rest))).result = _
  rcases hread : expression (operand names room stop) (tokens ++ ⟨token, span⟩ :: rest) with
    ⟨result, left, hsuffix⟩
  rw [hread] at hresult hrest
  obtain rfl : result = .ok e := hresult
  obtain rfl : left = ⟨token, span⟩ :: rest := hrest
  cases token with
  | closeBracket => exact absurd rfl hclose
  | _ => rfl

end

/-- Two literals in brackets. -/
theorem ofText_twoLiterals (names : Text → Bool) :
    Expr.ofText names ['(', '\x27', 'a', '\x27', '\x27', 'b', '\x27', ')'] =
      .error ⟨.openGroup, ⟨0, 1⟩⟩ := by
  have htokens : tokenize names 0
      (condense ['(', '\x27', 'a', '\x27', '\x27', 'b', '\x27', ')']) =
        .ok (⟨.openBracket, ⟨0, 1⟩⟩ :: ([⟨.string ['a'], ⟨1, 4⟩⟩] ++
          ⟨.string ['b'], ⟨4, 7⟩⟩ :: [⟨.closeBracket, ⟨7, 8⟩⟩])) := rfl
  have hfirst : Accepted names 63 [⟨.string ['a'], ⟨1, 4⟩⟩] (.string ⟨1, 4⟩ ['a']) :=
    .leaf (.string ['a'] ⟨1, 4⟩) rfl (by simp) rfl
  exact ofText_eq_error htokens (List.cons_ne_nil _ _)
    (operand_openGroup hfirst (by rintro op ⟨⟩) (by rintro ⟨⟩))

/-- Two brackets with nothing in them. -/
theorem ofText_emptyGroup (names : Text → Bool) :
    Expr.ofText names ['(', ')'] = .error ⟨.strayClose, ⟨1, 2⟩⟩ := by
  have htokens : tokenize names 0 (condense ['(', ')']) =
      .ok [⟨.openBracket, ⟨0, 1⟩⟩, ⟨.closeBracket, ⟨1, 2⟩⟩] := rfl
  refine ofText_eq_error htokens (List.cons_ne_nil _ _) (operand_group_eq_error ?_)
  rw [operand_closeBracket]
  rfl

/-! ### Faults about brackets -/

/-- **Faults about brackets.** The brackets of a call that are called open have no partner. An
opening bracket of a group that is called open stands in front of an expression that no closing
bracket follows, and it has a partner if and only if there is one further on. A closing bracket that
is called stray has a partner if and only if a bracket is open in front of it, and then it stands
directly behind an opening bracket or an operator. -/
theorem bracket_faults {names : Text → Bool} {source : Text} {fault : Fault}
    (h : Expr.ofText names source = .error fault) :
    (fault.cause.isAboutBracket = true → fault.span.stop = fault.span.start + 1) ∧
    (∀ name, fault.cause = .openCall name →
      closingBracket? (condense source) fault.span.start = none) ∧
    (fault.cause = .openGroup → ∃ (before : Text) (p : Phrase) (after : Text),
      condense source = before ++ Symbol.openBracket :: p.text ++ after ∧
        fault.span.start = Text.size before ∧ p.IsSpelled names ∧
        after.head? ≠ some Symbol.closeBracket ∧
        (closingBracket? (condense source) fault.span.start = none ↔ enclosed? after = none)) ∧
    (fault.cause = .strayClose → ∃ before after,
      condense source = before ++ Symbol.closeBracket :: after ∧
        fault.span.start = Text.size before ∧
        (IsPartnered (condense source) fault.span.start ↔ (outermost.after before).depth ≠ 0) ∧
        (IsPartnered (condense source) fault.span.start → EndsOpen before)) := by
  have hfinds := findsIn_fragment (findsIn_operand names (roomAt 0)) (condense_condense source) h
  have hopening : fault.cause ≠ .strayClose → fault.FindsIn names 0 (condense source) :=
    fun hcause => hfinds.resolve_right fun hleft => hcause hleft.1
  refine ⟨(pointsInto_ofText h).stop_eq, ?_, ?_, Fault.of_strayClose hfinds⟩
  · intro name hcause
    exact (hopening (by rw [hcause]; rintro ⟨⟩)).of_openCall hcause
  · intro hcause
    exact (hopening (by rw [hcause]; rintro ⟨⟩)).of_openGroup hcause

/-- A bracket that is called stray and has a partner. -/
theorem bracket_faults_emptyGroup :
    Expr.ofText (fun _ => false) ['(', ')'] = .error ⟨.strayClose, ⟨1, 2⟩⟩ ∧
      ∃ before after, condense ['(', ')'] = before ++ Symbol.closeBracket :: after ∧
        IsPartnered (condense ['(', ')']) 1 ∧ EndsOpen before := by
  have hfault := ofText_emptyGroup fun _ => false
  obtain ⟨before, after, htext, hstart, hiff, hplace⟩ := (bracket_faults hfault).2.2.2 rfl
  have hsplit : before ++ Symbol.closeBracket :: after = ['('] ++ [')'] := htext.symm
  have hbefore : before = ['('] := (Text.append_inj_of_size hsplit hstart.symm).1
  have hpartnered : IsPartnered (condense ['(', ')']) 1 := by
    refine hiff.2 ?_
    rw [hbefore]
    decide
  exact ⟨hfault, before, after, htext, hpartnered, hplace hpartnered⟩

/-- Two literals in brackets that are partners, of which the first is called open, and two brackets
that are partners, of which the second is called stray. -/
theorem not_bracket_faults_partnerless :
    (Expr.ofText (fun _ => false) ['(', '\x27', 'a', '\x27', '\x27', 'b', '\x27', ')'] =
        .error ⟨.openGroup, ⟨0, 1⟩⟩ ∧
      closingBracket? (condense ['(', '\x27', 'a', '\x27', '\x27', 'b', '\x27', ')']) 0 = some 7) ∧
    (Expr.ofText (fun _ => false) ['(', ')'] = .error ⟨.strayClose, ⟨1, 2⟩⟩ ∧
      closingBracket? (condense ['(', ')']) 0 = some 1) :=
  ⟨⟨ofText_twoLiterals _, rfl⟩, ofText_emptyGroup _, rfl⟩

end Assertions
