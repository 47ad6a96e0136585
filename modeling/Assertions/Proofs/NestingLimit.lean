import Assertions.Expr.Cursor
import Assertions.Proofs.Printing
import Assertions.Proofs.Unlimited

/-!
# The limit on the nesting is exact

A text is read as the same tree with the limit and without it if no more groups and calls are inside
each other in this tree than there is room for. If there are more, reading with the limit fails at
the first of them in the source that has as many others around it as there is room for.
-/

namespace Assertions

variable {names : Text → Bool}

/-- The expression that a condensed text holds, with any number of groups and calls inside each
other. -/
def Expr.ofTextUnlimited (names : Text → Bool) (source : Text) : Except Fault Expr :=
  fragment (unlimitedOperand names) names 0 (condense source)

/-- A limit on the nesting of a text compared with none. -/
theorem fragment_limited_unlimited (names : Text → Bool) (room offset : Nat) (text : Text) :
    Limited (Expr.tooDeep? room) True True (fragment (operand names room) names offset text)
      (fragment (unlimitedOperand names) names offset text) := by
  refine fragment_limited (Expr.tooDeep?_binary room) ?_
  intro tokens htokens stop more hmore
  have hnarrow := (tokenizeWithin_eq_ok_iff.1 htokens).1.weight_le.2
  exact (operand_limited_unlimited names room stop more).mono (fun _ => trivial)
    fun _ => hnarrow.of_suffix hmore

/-- The trees with a limit are those without one that do not go beyond it. -/
theorem Limited.eq_ok_iff {overfull narrow : Prop} {room : Nat} {result free : Except Fault Expr}
    (h : Limited (Expr.tooDeep? room) overfull narrow result free) {e : Expr} :
    result = .ok e ↔ free = .ok e ∧ e.nesting ≤ room := by
  rcases h with ⟨rfl, hnone⟩ | ⟨-, span, rfl, hdeep⟩
  · constructor
    · intro he
      exact ⟨he, Expr.tooDeep?_eq_none_iff.1 (hnone e he)⟩
    · exact And.left
  · constructor
    · intro he
      cases he
    · rintro ⟨he, hnesting⟩
      obtain ⟨opening, hopening, -⟩ := hdeep e he
      rw [Expr.tooDeep?_eq_none_iff.2 hnesting] at hopening
      cases hopening

theorem Outcome.Limited.gives_iff {overfull narrow : Prop} {room : Nat} {bound : List PlacedToken}
    {outcome free : Outcome Expr bound}
    (h : outcome.Limited (Expr.tooDeep? room) overfull narrow free) {e : Expr}
    {rest : List PlacedToken} :
    outcome.Gives e rest ↔ free.Gives e rest ∧ e.nesting ≤ room := by
  have hresult : Assertions.Limited (Expr.tooDeep? room) overfull narrow outcome.result free.result :=
    h.imp_left fun ⟨heq, hnone⟩ => ⟨congrArg Outcome.result heq, hnone⟩
  rcases h with ⟨rfl, -⟩ | ⟨-, span, herror, -⟩
  · constructor
    · intro hgives
      exact ⟨hgives, (hresult.eq_ok_iff.1 hgives.1).2⟩
    · exact And.left
  · constructor
    · intro hgives
      cases herror.symm.trans hgives.1
    · rintro ⟨hgives, hnesting⟩
      cases herror.symm.trans (hresult.eq_ok_iff.2 ⟨hgives.1, hnesting⟩)

theorem fragment_eq_ok_iff_unlimited {room offset : Nat} {text : Text} {e : Expr} :
    fragment (operand names room) names offset text = .ok e ↔
      fragment (unlimitedOperand names) names offset text = .ok e ∧ e.nesting ≤ room :=
  (fragment_limited_unlimited names room offset text).eq_ok_iff

/-- A tree that is read without a limit is that of a phrase. -/
theorem exists_phrase_of_ofTextUnlimited {source : Text} {e : Expr}
    (h : Expr.ofTextUnlimited names source = .ok e) : ∃ p : Phrase, p.expr 0 = e := by
  have hroom : fragment (operand names e.nesting) names 0 (condense source) = .ok e :=
    fragment_eq_ok_iff_unlimited.2 ⟨h, Nat.le_refl _⟩
  obtain ⟨tokens, htokens, hcomplete⟩ := fragment_eq_ok.1 hroom
  have hwritten := (isWritten_of_tokenizeWithin htokens (condense_condense source)).1
  obtain ⟨p, -, -, rfl, -⟩ := (complete_eq_ok_iff.1 hcomplete).yields.isPhrase 0 _ hwritten
  exact ⟨p, rfl⟩

/-- A phrase is read without a limit, however deep it is. -/
theorem Phrase.IsSpelled.ofTextUnlimited {p : Phrase} (h : p.IsSpelled names)
    (hordered : (p.expr 0).IsOrdered) (hcount : p.tokenCount ≤ maxTokens) :
    Expr.ofTextUnlimited names p.text = .ok (p.expr 0) := by
  have haccepted : Accepted names (p.expr 0).nesting (p.tokens 0) (p.expr 0) :=
    ⟨h.yields 0, hordered, Nat.le_refl _⟩
  have hread : fragment (operand names (p.expr 0).nesting) names 0 p.text = .ok (p.expr 0) :=
    fragment_eq_ok.2 ⟨p.tokens 0, tokenize_text h hcount 0, complete_eq_ok_iff.2 haccepted⟩
  rw [Expr.ofTextUnlimited, h.selfContained_text.tight.condense_eq]
  exact (fragment_eq_ok_iff_unlimited.1 hread).1

/-- The first group or call that is too deep opens before the others that are as deep. -/
theorem Expr.mem_openings_of_tooDeep? {e : Expr} {room : Nat} {span : Span}
    (hsorted : (e.openings 0).Pairwise fun a b => a.2.start < b.2.start)
    (h : e.tooDeep? room = some span) :
    (room, span) ∈ e.openings 0 ∧
      ∀ other, (room, other) ∈ e.openings 0 → span.start ≤ other.start := by
  obtain ⟨⟨depth, _⟩, hfind, rfl⟩ := Option.map_eq_some_iff.1 h
  obtain ⟨hdepth, before, after, hsplit, hbefore⟩ := List.find?_eq_some_iff_append.1 hfind
  obtain rfl : depth = room := beq_iff_eq.1 hdepth
  rw [hsplit] at hsorted ⊢
  refine ⟨List.mem_append_right _ List.mem_cons_self, ?_⟩
  intro other hmem
  rcases List.mem_append.1 hmem with hmem | hmem
  · have hother := hbefore _ hmem
    simp at hother
  · rcases List.mem_cons.1 hmem with heq | hmem
    · cases heq
      exact Nat.le_refl _
    · exact Nat.le_of_lt (List.rel_of_pairwise_cons (List.pairwise_append.1 hsorted).2.1 hmem)

/-- **The limit is exact.** Reading without a limit goes by the same rules as reading with room
left. What is read with the limit is what is read without it and has no more than `maxNesting` groups
and calls inside each other. Where there are more, reading fails at the first group or call in the
source that has `maxNesting` others around it. A cursor inside `depth` others has that much less
room. -/
theorem nesting_limit_exact (names : Text → Bool) :
    (∀ room stop tokens, operand names (room + 1) stop tokens =
      operandStep names (operand names room) stop tokens) ∧
    (∀ reader : Nat → OperandReader,
      (∀ stop tokens, reader stop tokens = operandStep names reader stop tokens) ↔
        reader = unlimitedOperand names) ∧
    (∀ source e, Expr.ofText names source = .ok e ↔
      Expr.ofTextUnlimited names source = .ok e ∧ e.nesting ≤ maxNesting) ∧
    (∀ source e, Expr.ofTextUnlimited names source = .ok e → maxNesting < e.nesting →
      ∃ span, Expr.ofText names source = .error ⟨.tooDeep, span⟩ ∧
        (maxNesting, span) ∈ e.openings 0 ∧
        ∀ other, (maxNesting, other) ∈ e.openings 0 → span.start ≤ other.start) ∧
    (∀ depth tokens e rest,
      (Cursor.start names depth tokens).outcome.Gives e rest ↔
        (expression (unlimitedOperand names (endOf tokens)) tokens).Gives e rest ∧
          e.nesting ≤ maxNesting - depth) := by
  refine ⟨operand_succ names, fun reader => eq_unlimitedOperand_iff, ?_, ?_, ?_⟩
  · intro source e
    exact fragment_eq_ok_iff_unlimited
  · intro source e he hdeep
    obtain ⟨p, rfl⟩ := exists_phrase_of_ofTextUnlimited he
    rcases fragment_limited_unlimited names (roomAt 0) 0 (condense source) with
      ⟨-, hnone⟩ | ⟨-, span, herror, hfirst⟩
    · exact absurd (Expr.tooDeep?_eq_none_iff.1 (hnone _ he)) (Nat.not_le.2 hdeep)
    · obtain ⟨opening, hopening, hspan⟩ := hfirst _ he
      obtain rfl := hspan trivial
      exact ⟨opening, herror, Expr.mem_openings_of_tooDeep? (p.pairwise_openings 0 0) hopening⟩
  · intro depth tokens e rest
    have hlimited : (Cursor.start names depth tokens).outcome.Limited
        (Expr.tooDeep? (maxNesting - depth)) True False
        (expression (unlimitedOperand names (endOf tokens)) tokens) :=
      expression_limited (Expr.tooDeep?_binary _) fun more _ =>
        (operand_limited_unlimited names (roomAt depth) (endOf tokens) more).mono
          (fun _ => trivial) False.elim
    exact hlimited.gives_iff

/-- A bracket inside `maxNesting` others. -/
theorem nesting_limit_exact_brackets :
    ∃ span, Expr.ofText (fun _ => false)
        (Nat.repeat Phrase.group 65 (.ref .model ⟨[['a']]⟩)).text = .error ⟨.tooDeep, span⟩ ∧
      (maxNesting, span) ∈
        ((Nat.repeat Phrase.group 65 (.ref .model ⟨[['a']]⟩)).expr 0).openings 0 := by
  have hpath : (Path.mk [['a']]).IsPlain :=
    ⟨List.forall_mem_singleton.2 (List.forall_mem_singleton.2 rfl), by decide⟩
  have hgroups : ∀ n : Nat, ∀ offset,
      (Nat.repeat Phrase.group n (.ref .model ⟨[['a']]⟩)).IsSpelled (fun _ => false) ∧
        ((Nat.repeat Phrase.group n (.ref .model ⟨[['a']]⟩)).expr offset).IsOrdered ∧
        ((Nat.repeat Phrase.group n (.ref .model ⟨[['a']]⟩)).expr offset).nesting = n ∧
        (Nat.repeat Phrase.group n (.ref .model ⟨[['a']]⟩)).tokenCount = 2 * n + 1 := by
    intro n
    induction n with
    | zero =>
      exact fun offset => ⟨.ref .model hpath, Expr.isOrdered_of_nodes_eq rfl nofun, rfl, rfl⟩
    | succ n ih =>
      intro offset
      obtain ⟨hspelled, hordered, hnesting, hcount⟩ := ih (offset + 1)
      exact ⟨.group hspelled, Expr.isOrdered_group.2 hordered, congrArg (· + 1) hnesting,
        congrArg (· + 2) hcount⟩
  obtain ⟨hspelled, hordered, hnesting, hcount⟩ := hgroups 65 0
  have hread := hspelled.ofTextUnlimited hordered (by rw [hcount]; decide)
  obtain ⟨span, herror, hspan, -⟩ :=
    (nesting_limit_exact (fun _ => false)).2.2.2.1 _ _ hread (by rw [hnesting]; decide)
  exact ⟨span, herror, hspan⟩

end Assertions
