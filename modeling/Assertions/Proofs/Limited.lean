import Assertions.Proofs.Acceptance
import Assertions.Proofs.MoreNames

/-!
# Results with less room

`Limited` compares a result with one that had more room, the free result. Either both are the same
and nothing in them is too deep, or the first stops where something opens that is: at the first place
in the source order at which this happens in the free result (`StopsAtFirst`). What is too deep is
looked for by a search `deep?`, which goes on from the first operand of a binary expression to the
second. The search that never finds anything is one too, so the lemmas also say that readers which
agree on operands agree on expressions.

The lemmas go up from operands over levels of operators to groups, whole texts and arguments.
-/

namespace Assertions

/-! ### Results with less room -/

section

variable {α : Type u} {β : Type v} {deep? : α → Option Span} {overfull narrow : Prop}

/-- Whether a result is that there was no room for the first group or call that is too deep in the
free result. This can only be where something is `overfull`, and the position is all that is known
of brackets that are not `narrow`. -/
def StopsAtFirst (deep? : α → Option Span) (overfull narrow : Prop)
    (result free : Except Fault α) : Prop :=
  overfull ∧ ∃ span, result = .error ⟨.tooDeep, span⟩ ∧
    ∀ a, free = .ok a → ∃ opening, deep? a = some opening ∧ (narrow → opening = span)

/-- Whether a result is the free result with nothing in it that is too deep, or stops at what is. -/
def Limited (deep? : α → Option Span) (overfull narrow : Prop) (result free : Except Fault α) :
    Prop :=
  (result = free ∧ ∀ a, free = .ok a → deep? a = none) ∨
    StopsAtFirst deep? overfull narrow result free

/-- `Limited` for outcomes: the same tokens are left. -/
def Outcome.Limited {bound : List PlacedToken} (deep? : α → Option Span) (overfull narrow : Prop)
    (outcome free : Outcome α bound) : Prop :=
  (outcome = free ∧ ∀ a, free.result = .ok a → deep? a = none) ∨
    StopsAtFirst deep? overfull narrow outcome.result free.result

/-- What goes on from results stops where they do, if it fails with the first and comes from a value
of the second that is as deep. -/
theorem StopsAtFirst.lift {deep?' : β → Option Span} {result free : Except Fault α}
    {result' free' : Except Fault β} (h : StopsAtFirst deep? overfull narrow result free)
    (hresult : ∀ fault, result = .error fault → result' = .error fault)
    (hfree : ∀ b, free' = .ok b →
      ∃ a, free = .ok a ∧ ∀ span, deep? a = some span → deep?' b = some span) :
    StopsAtFirst deep?' overfull narrow result' free' := by
  obtain ⟨hover, span, herror, hdeep⟩ := h
  refine ⟨hover, span, hresult _ herror, ?_⟩
  intro b hb
  obtain ⟨a, ha, hspan⟩ := hfree b hb
  obtain ⟨opening, hopening, hnarrow⟩ := hdeep a ha
  exact ⟨opening, hspan opening hopening, hnarrow⟩

theorem StopsAtFirst.mono {overfull' narrow' : Prop} {result free : Except Fault α}
    (h : StopsAtFirst deep? overfull narrow result free) (hover : overfull → overfull')
    (hnarrow : narrow' → narrow) : StopsAtFirst deep? overfull' narrow' result free := by
  obtain ⟨hfull, span, herror, hdeep⟩ := h
  refine ⟨hover hfull, span, herror, ?_⟩
  intro a ha
  obtain ⟨opening, hopening, hspan⟩ := hdeep a ha
  exact ⟨opening, hopening, hspan ∘ hnarrow⟩

theorem Limited.mono {overfull' narrow' : Prop} {result free : Except Fault α}
    (h : Limited deep? overfull narrow result free) (hover : overfull → overfull')
    (hnarrow : narrow' → narrow) : Limited deep? overfull' narrow' result free :=
  h.imp_right fun hstops => hstops.mono hover hnarrow

/-- What is put in front of a result does not change where it stops. -/
theorem Limited.map {deep?' : β → Option Span} {result free : Except Fault α} {f : α → β}
    (h : Limited deep? overfull narrow result free) (hf : ∀ a, deep?' (f a) = deep? a) :
    Limited deep?' overfull narrow (result.map f) (free.map f) := by
  have hvalue : ∀ b, free.map f = .ok b → ∃ a, free = .ok a ∧ f a = b := by
    intro b hb
    cases free with
    | error fault => cases hb
    | ok a =>
      cases hb
      exact ⟨a, rfl, rfl⟩
  rcases h with ⟨rfl, hnone⟩ | hstops
  · refine .inl ⟨rfl, ?_⟩
    intro b hb
    obtain ⟨a, ha, rfl⟩ := hvalue b hb
    rw [hf, hnone a ha]
  · refine .inr (hstops.lift ?_ ?_)
    · rintro fault rfl
      rfl
    · intro b hb
      obtain ⟨a, ha, rfl⟩ := hvalue b hb
      exact ⟨a, ha, fun span hspan => (hf a).trans hspan⟩

theorem Outcome.Limited.mono {bound : List PlacedToken} {overfull' narrow' : Prop}
    {outcome free : Outcome α bound} (h : outcome.Limited deep? overfull narrow free)
    (hover : overfull → overfull') (hnarrow : narrow' → narrow) :
    outcome.Limited deep? overfull' narrow' free :=
  h.imp_right fun hstops => hstops.mono hover hnarrow

/-- Nothing stops where nothing is overfull. -/
theorem Outcome.Limited.eq {bound : List PlacedToken} {outcome free : Outcome α bound}
    (h : outcome.Limited deep? overfull narrow free) (hover : ¬overfull) : outcome = free := by
  rcases h with ⟨heq, -⟩ | ⟨hfull, -⟩
  · exact heq
  · exact absurd hfull hover

theorem Outcome.Limited.widen {bound wider : List PlacedToken} {outcome free : Outcome α bound}
    (h : outcome.Limited deep? overfull narrow free) (hwider : bound <:+ wider) :
    (outcome.widen hwider).Limited deep? overfull narrow (free.widen hwider) :=
  h.imp_left fun ⟨heq, hnone⟩ => ⟨congrArg (Outcome.widen · hwider) heq, hnone⟩

/-- An operand in which nothing is too deep. -/
theorem Outcome.Limited.done {bound : List PlacedToken} {a : α} (h : deep? a = none) :
    (Outcome.done a : Outcome α bound).Limited deep? overfull narrow (.done a) := by
  refine .inl ⟨rfl, ?_⟩
  rintro _ ⟨⟩
  exact h

/-- An error that does not depend on the room. -/
theorem Outcome.Limited.error {bound : List PlacedToken} {outcome : Outcome α bound} {fault : Fault}
    (h : outcome.result = .error fault) : outcome.Limited deep? overfull narrow outcome := by
  refine .inl ⟨rfl, ?_⟩
  intro a ha
  rw [h] at ha
  cases ha

end

/-! ### Operators -/

/-- The result of reading and the tokens that are left. -/
def Outcome.split {α : Type u} {bound : List PlacedToken} (outcome : Outcome α bound) :
    Except Fault α × List PlacedToken :=
  (outcome.result, outcome.rest)

theorem split_extend_of_error {ops : List Operator} {reader : OperandReader} {left : Expr}
    {op : Operator} {span : Span} {more rest : List PlacedToken} {fault : Fault} (hop : op ∈ ops)
    (h : (reader more).split = (.error fault, rest)) :
    (extend ops reader left (⟨.operator op, span⟩ :: more)).split = (.error fault, rest) := by
  rw [extend.eq_def]
  simp only [List.contains_iff_mem, hop, if_true]
  rcases hmore : reader more with ⟨_ | right, after, hsuffix⟩
  · rw [hmore] at h
    exact h
  · rw [hmore] at h
    cases h

theorem split_level_of_error {ops : List Operator} {reader : OperandReader}
    {tokens rest : List PlacedToken} {fault : Fault}
    (h : (reader tokens).split = (.error fault, rest)) :
    (level ops reader tokens).split = (.error fault, rest) := by
  unfold level
  rcases htokens : reader tokens with ⟨_ | left, after, hsuffix⟩
  · rw [htokens] at h
    exact h
  · rw [htokens] at h
    cases h

/-- Operands between operators fail if the next one does. -/
theorem extend_eq_error {ops : List Operator} {reader : OperandReader} {left : Expr}
    {op : Operator} {span : Span} {more : List PlacedToken} {fault : Fault}
    (hop : ops.contains op = true) (h : (reader more).result = .error fault) :
    (extend ops reader left (⟨.operator op, span⟩ :: more)).result = .error fault :=
  congrArg Prod.fst (split_extend_of_error (List.contains_iff_mem.1 hop) (Prod.ext h rfl))

theorem level_eq_error {ops : List Operator} {reader : OperandReader} {tokens : List PlacedToken}
    {fault : Fault} (h : (reader tokens).result = .error fault) :
    (level ops reader tokens).result = .error fault :=
  congrArg Prod.fst (split_level_of_error (Prod.ext h rfl))

/-- An expression fails if its first operand does. -/
theorem expression_eq_error {reader : OperandReader} {tokens : List PlacedToken} {fault : Fault}
    (h : (reader tokens).result = .error fault) :
    (expression reader tokens).result = .error fault := by
  unfold expression
  induction Operator.ladder with
  | nil => exact h
  | cons ops others ih => exact level_eq_error ih

section

variable {deep? : Expr → Option Span} {overfull narrow : Prop} {reader free : OperandReader}
  {tokens : List PlacedToken}
  (hbinary : ∀ op left right, deep? (.binary op left right) = (deep? left).or (deep? right))
include hbinary

/-- What is put on an expression does not come before what is too deep in it. -/
theorem deep?_of_extend {ops : List Operator} {left e : Expr} {span : Span}
    (h : (extend ops reader left tokens).result = .ok e) (hleft : deep? left = some span) :
    deep? e = some span := by
  fun_induction extend ops reader left tokens with
  | case1 => cases h
  | case2 left op span more hop right rest hsuffix hright ih =>
    refine ih h ?_
    rw [hbinary, hleft]
    rfl
  | case3 | case4 =>
    cases h
    exact hleft

theorem extend_limited {ops : List Operator} {left : Expr}
    (h : ∀ more, more <:+ tokens → (reader more).Limited deep? overfull narrow (free more))
    (hleft : deep? left = none) :
    (extend ops reader left tokens).Limited deep? overfull narrow
      (extend ops free left tokens) := by
  fun_induction extend ops free left tokens with
  | case1 left op span more hop fault rest hsuffix hfault =>
    rcases h more (List.suffix_cons _ _) with ⟨heq, -⟩ | hstops
    · have hsame : extend ops reader left (⟨.operator op, span⟩ :: more) =
          ⟨.error fault, rest, suffix_cons_of_tail _ hsuffix⟩ := by
        rw [extend.eq_def]
        simp only [hop, if_true, heq, hfault]
      rw [hsame]
      exact .error rfl
    · refine .inr (hstops.lift (fun fault h => extend_eq_error hop h) ?_)
      intro e he
      cases he
  | case2 left op span more hop right rest hsuffix hright ih =>
    have hrest := hsuffix.trans (List.tail_suffix more)
    rcases h more (List.suffix_cons _ _) with ⟨heq, hnone⟩ | hstops
    · have hnext : extend ops reader left (⟨.operator op, span⟩ :: more) =
          (extend ops reader (.binary op left right) rest).widen
            (suffix_cons_of_tail _ hsuffix) := by
        rw [extend.eq_def]
        simp only [hop, if_true, heq, hright]
      have hdeep : deep? (.binary op left right) = none := by
        rw [hbinary, hleft, hnone right (by rw [hright])]
        rfl
      rw [hnext]
      exact (ih (fun later hlater => h later (hlater.trans (suffix_cons_of_tail _ hsuffix)))
        hdeep).widen _
    · refine .inr (hstops.lift (fun fault h => extend_eq_error hop h) ?_)
      intro e (he : (extend ops free (.binary op left right) rest).result = .ok e)
      refine ⟨right, by rw [hright], ?_⟩
      intro span hspan
      refine deep?_of_extend hbinary he ?_
      rw [hbinary, hleft, hspan]
      rfl
  | case3 left op span more hop =>
    have hstop : extend ops reader left (⟨.operator op, span⟩ :: more) = .done left := by
      rw [extend.eq_def]
      simp only [hop, if_false, Bool.false_eq_true]
    rw [hstop]
    exact .done hleft
  | case4 left tokens hother =>
    rw [extend_of_stop fun op span more heq => (hother op span more heq).elim]
    exact .done hleft

theorem level_limited {ops : List Operator}
    (h : ∀ more, more <:+ tokens → (reader more).Limited deep? overfull narrow (free more)) :
    (level ops reader tokens).Limited deep? overfull narrow (level ops free tokens) := by
  rcases h tokens (List.suffix_refl _) with ⟨heq, hnone⟩ | hstops
  · unfold level
    rw [heq]
    rcases hfree : free tokens with ⟨_ | left, rest, hsuffix⟩
    · exact .error rfl
    · have hrest := hsuffix.trans (List.tail_suffix tokens)
      have hleft : deep? left = none := hnone left (by rw [hfree])
      exact (extend_limited hbinary (fun more hmore => h more (hmore.trans hrest)) hleft).widen _
  · refine .inr (hstops.lift (fun fault h => level_eq_error h) ?_)
    intro e he
    obtain ⟨left, rest, hleft, hextend⟩ := level_gives_iff.1 ⟨he, rfl⟩
    exact ⟨left, hleft.1, fun span hspan => deep?_of_extend hbinary hextend.1 hspan⟩

theorem expression_limited
    (h : ∀ more, more <:+ tokens → (reader more).Limited deep? overfull narrow (free more)) :
    (expression reader tokens).Limited deep? overfull narrow (expression free tokens) := by
  have hlevels : ∀ levels : List (List Operator), ∀ more, more <:+ tokens →
      (levels.foldr level reader more).Limited deep? overfull narrow
        (levels.foldr level free more) := by
    intro levels
    induction levels with
    | nil => exact h
    | cons ops others ih =>
      intro more hmore
      exact level_limited hbinary fun later hlater => ih later (hlater.trans hmore)
  exact hlevels Operator.ladder tokens (List.suffix_refl _)

end

/-! ### Groups and whole texts -/

section

variable {deep? inner? : Expr → Option Span} {overfull narrow : Prop}

theorem closeGroup_limited {bound : List PlacedToken} {inner free : Outcome Expr bound}
    (opening : Span) (hgroup : ∀ span e, deep? (.group span e) = inner? e)
    (h : inner.Limited inner? overfull narrow free) :
    (closeGroup opening inner).Limited deep? overfull narrow (closeGroup opening free) := by
  rcases h with ⟨rfl, hnone⟩ | hstops
  · refine .inl ⟨rfl, ?_⟩
    intro e he
    obtain ⟨body, closing, hbody, rfl⟩ := closeGroup_gives_iff.1 ⟨he, rfl⟩
    rw [hgroup, hnone body hbody.1]
  · refine .inr (hstops.lift ?_ ?_)
    · intro fault herror
      obtain ⟨result, rest, hsuffix⟩ := inner
      cases herror
      rfl
    · intro e he
      obtain ⟨body, closing, hbody, rfl⟩ := closeGroup_gives_iff.1 ⟨he, rfl⟩
      exact ⟨body, hbody.1, fun span hspan => (hgroup _ _).trans hspan⟩

theorem complete_eq_error {operandUpTo : Nat → OperandReader} {tokens : List PlacedToken}
    {fault : Fault} (htokens : tokens ≠ [])
    (h : (expression (operandUpTo (endOf tokens)) tokens).result = .error fault) :
    complete operandUpTo tokens = .error fault := by
  cases tokens with
  | nil => exact absurd rfl htokens
  | cons first others =>
    rw [complete]
    rcases hread : expression (operandUpTo (endOf (first :: others))) (first :: others) with
      ⟨_ | e, rest, hsuffix⟩
    · rw [hread] at h
      cases h
      rfl
    · rw [hread] at h
      cases h

variable {readerUpTo freeUpTo : Nat → OperandReader}
  (hbinary : ∀ op left right, deep? (.binary op left right) = (deep? left).or (deep? right))
include hbinary

theorem complete_limited {tokens : List PlacedToken}
    (h : ∀ stop more, more <:+ tokens →
      (readerUpTo stop more).Limited deep? overfull narrow (freeUpTo stop more)) :
    Limited deep? overfull narrow (complete readerUpTo tokens) (complete freeUpTo tokens) := by
  by_cases htokens : tokens = []
  · subst htokens
    exact .inl ⟨rfl, nofun⟩
  · rcases expression_limited hbinary (h (endOf tokens)) with ⟨heq, hnone⟩ | hstops
    · refine .inl ⟨?_, ?_⟩
      · cases tokens with
        | nil => rfl
        | cons first others => simp only [complete, heq]
      · intro e he
        exact hnone e ((complete_eq_ok htokens).1 he).1
    · refine .inr (hstops.lift (fun fault => complete_eq_error htokens) ?_)
      intro e he
      exact ⟨e, ((complete_eq_ok htokens).1 he).1, fun span => id⟩

theorem fragment_limited {names : Text → Bool} {offset : Nat} {text : Text}
    (h : ∀ tokens, tokenize names offset text = .ok tokens → ∀ stop more, more <:+ tokens →
      (readerUpTo stop more).Limited deep? overfull narrow (freeUpTo stop more)) :
    Limited deep? overfull narrow (fragment readerUpTo names offset text)
      (fragment freeUpTo names offset text) := by
  rw [fragment_eq_bind, fragment_eq_bind]
  cases htokens : tokenize names offset text with
  | error fault => exact .inl ⟨rfl, nofun⟩
  | ok tokens => exact complete_limited hbinary (h tokens htokens)

end

/-! ### Arguments -/

/-- Arguments are limited if each of their texts is, wherever it stands. -/
theorem arguments_limited {deep? : Expr → Option Span} {overfull narrow : Prop}
    {readText free : (offset : Nat) → Text → Except Fault Expr} {pieces : List (Nat × Text)}
    (h : ∀ piece ∈ pieces, ∀ offset,
      Limited deep? overfull narrow (readText offset piece.2) (free offset piece.2))
    (name : Text) (offset : Nat) :
    Limited (List.findSome? deep?) overfull narrow (arguments readText name offset pieces)
      (arguments free name offset pieces) := by
  induction pieces with
  | nil =>
    refine .inl ⟨rfl, ?_⟩
    rintro _ ⟨⟩
    rfl
  | cons piece others ih =>
    obtain ⟨start, text⟩ := piece
    obtain ⟨hfirst, hothers⟩ := List.forall_mem_cons.1 h
    by_cases htext : text = []
    · subst htext
      exact .inl ⟨rfl, nofun⟩
    · rw [arguments_cons _ _ _ _ htext, arguments_cons _ _ _ _ htext]
      rcases hfirst (offset + start) with ⟨heq, hnone⟩ | hstops
      · rw [show readText (offset + start) text = free (offset + start) text from heq]
        cases hfree : free (offset + start) text with
        | error fault => exact .inl ⟨rfl, nofun⟩
        | ok e =>
          have he : deep? e = none := hnone e hfree
          have hcons : ∀ es, List.findSome? deep? (e :: es) = List.findSome? deep? es := by
            intro es
            rw [List.findSome?_cons, he]
          refine (ih hothers).map hcons
      · refine .inr (hstops.lift ?_ ?_)
        · intro fault herror
          rw [show readText (offset + start) text = .error fault from herror]
          rfl
        · intro es hes
          rw [← arguments_cons _ _ _ _ htext] at hes
          obtain ⟨-, e, rest, he, -, rfl⟩ := arguments_cons_eq_ok.1 hes
          refine ⟨e, he, ?_⟩
          intro span hspan
          rw [List.findSome?_cons, hspan]

end Assertions
