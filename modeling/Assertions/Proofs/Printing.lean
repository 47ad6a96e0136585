import Assertions.Proofs.Acceptance
import Assertions.Proofs.Lexing
import Assertions.Proofs.Parts

/-!
# Reading what was written

The tokens of a phrase yield its tree, and so does its text: the arguments of a call are found
again between the commas, each at its position, and the tokens of an argument are moved to where it
stands. Blanks outside literals make no difference.
-/

namespace Assertions.Phrase

variable {names : Text → Bool} {p : Phrase}

/-- The arguments of a call are found again in its text. -/
theorem splitArguments_texts {args : List Phrase} (h : ∀ arg ∈ args, arg.IsSpelled names) :
    splitArguments (joinCommas (texts args)) = placed 0 (texts args) := by
  cases args with
  | nil => rfl
  | cons first others =>
    have htexts : ∀ text ∈ texts (first :: others), SelfContained text := by
      rw [texts_eq_map]
      exact List.forall_mem_map.2 fun arg harg => (h arg harg).selfContained_text
    have hblank : (joinCommas (texts (first :: others))).all Text.isBlank = false := by
      obtain ⟨c, rest, htext, hc, -⟩ := (h first List.mem_cons_self).head_text
      rw [texts, htext, joinCommas_cons_char, List.all_cons, hc, Bool.false_and]
    exact splitArguments_joinCommas (List.cons_ne_nil _ _) hblank
      (fun text htext => (htexts text htext).balanced) fun text htext => (htexts text htext).uncut

theorem yieldsAll_exprs {argsAt : Nat} {args : List Phrase}
    (hspelled : ∀ arg ∈ args, arg.IsSpelled names)
    (hcount : ∀ arg ∈ args, arg.tokenCount ≤ maxTokens)
    (h : ∀ arg ∈ args, ∀ offset, Yields names (arg.tokens offset) (arg.expr offset))
    (start : Nat) :
    YieldsAll names argsAt (placed start (texts args)) (exprs (argsAt + start) args) := by
  induction args generalizing start with
  | nil => exact .nil argsAt
  | cons arg rest ih =>
    obtain ⟨harg, hrest⟩ := List.forall_mem_cons.1 h
    obtain ⟨hargSpelled, hrestSpelled⟩ := List.forall_mem_cons.1 hspelled
    obtain ⟨hargCount, hrestCount⟩ := List.forall_mem_cons.1 hcount
    refine .cons hargSpelled.text_ne_nil (tokenize_text hargSpelled hargCount 0) ?_ ?_
    · rw [shift_tokens, Nat.zero_add]
      exact harg (argsAt + start)
    · rw [Nat.add_assoc argsAt, Nat.add_assoc argsAt]
      exact ih hrestSpelled hrestCount hrest (start + Text.size arg.text + 1)

/-- The tree of a phrase is a tree over its tokens. -/
theorem IsSpelled.yields (h : p.IsSpelled names) (offset : Nat) :
    Yields names (p.tokens offset) (p.expr offset) := by
  induction h generalizing offset with
  | ref side _ => exact .ref side _ _
  | string => exact .string _ _
  | statement => exact .statement _ _
  | number sign hdigits =>
    cases sign with
    | none => exact .number _ _
    | some sign =>
      rename_i digits
      have hsign : sign.operator.isSign = true := by cases sign <;> rfl
      have hspan : spanAt offset (.number (some sign) digits) =
          ⟨offset, offset + Text.size sign.operator.spelling + Text.size digits⟩ := by
        rw [spanAt, text, Text.size_append, Nat.add_assoc]
      rw [expr, hspan, value_some]
      exact .signed hsign ⟨offset, _⟩ (Decimal.literalValue digits) ⟨_, _⟩
  | call hname hknown hargs hcount ih =>
    apply Yields.call
    rw [splitArguments_texts hargs]
    exact yieldsAll_exprs hargs hcount ih 0
  | binary op _ _ ihl ihr => exact .binary op _ (ihl offset) (ihr _)
  | group hinner ih =>
    rename_i inner
    have hspan : spanAt offset (.group inner) =
        ⟨offset, offset + 1 + Text.size inner.text + 1⟩ := by
      rw [spanAt, text, Text.size_append, Text.size_cons, ← Nat.add_assoc, ← Nat.add_assoc]
      rfl
    rw [expr, hspan]
    exact .group ⟨offset, offset + 1⟩ ⟨_, _⟩ (ih (offset + 1))

/-- Condensing leaves of a readable phrase just its text. -/
theorem IsReadable.condense_eq (h : p.IsReadable names) {source : Text}
    (hsource : Spaced false p.text source) : condense source = p.text :=
  (condense_of_spaced hsource).trans h.spelled.selfContained_text.tight.condense_eq

theorem IsReadable.ofText_of_spaced (h : p.IsReadable names) {source : Text}
    (hsource : Spaced false p.text source) : Expr.ofText names source = .ok (p.expr 0) := by
  have haccepted : Accepted names (roomAt 0) (p.tokens 0) (p.expr 0) :=
    ⟨h.spelled.yields 0, h.ordered, h.nesting_le⟩
  have htokens := tokenize_text h.spelled h.tokenCount_le 0
  show fragment (operand names (roomAt 0)) names 0 (condense source) = .ok (p.expr 0)
  rw [h.condense_eq hsource]
  exact fragment_eq_ok.2 ⟨p.tokens 0, htokens, complete_eq_ok_iff.2 haccepted⟩

/-- A spelled phrase whose tree is a part of that of a readable one is readable. -/
theorem IsReadable.of_mem_nodes (h : p.IsReadable names) {q : Phrase} {start : Nat}
    (hq : q.expr start ∈ (p.expr 0).nodes) (hspelled : q.IsSpelled names)
    (hcount : q.tokenCount ≤ maxTokens) : q.IsReadable names := by
  have hmoved : q.expr start = (q.expr 0).shift start := by rw [shift_expr, Nat.zero_add]
  have hordered := h.ordered.of_mem_nodes hq
  have hnesting := Expr.nesting_le_of_mem_nodes hq
  rw [hmoved] at hordered hnesting
  rw [Expr.nesting_shift] at hnesting
  exact ⟨hspelled, Expr.isOrdered_shift.1 hordered, Nat.le_trans hnesting h.nesting_le, hcount⟩

/-- The parts of a readable phrase are readable. -/
theorem IsReadable.part_of_mem_nodes (h : p.IsReadable names) {n : Expr}
    (hn : n ∈ (p.expr 0).nodes) :
    ∃ (q : Phrase) (start : Nat), n = q.expr start ∧ StandsAt q.text start p.text ∧
      q.IsReadable names := by
  obtain ⟨q, start, rfl, hstands, hspelled, hcount⟩ :=
    h.spelled.part_of_mem_nodes h.tokenCount_le hn
  rw [Nat.zero_add] at hn
  exact ⟨q, start, by rw [Nat.zero_add], hstands, h.of_mem_nodes hn hspelled hcount⟩

/-- **Writing and reading.** A readable phrase, written with blanks anywhere outside literals, is
read as its own tree. The span of every node is where the text of that node was written. -/
theorem IsReadable.ofText_eq_ok (h : p.IsReadable names) {source : Text}
    (hsource : Spaced false p.text source) :
    Expr.ofText names source = .ok (p.expr 0) ∧ condense source = p.text ∧
      ∀ n ∈ (p.expr 0).nodes, ∃ q : Phrase, n = q.expr n.span.start ∧
        n.span = q.spanAt n.span.start ∧ n.span.text? p.text = some q.text := by
  refine ⟨h.ofText_of_spaced hsource, h.condense_eq hsource, ?_⟩
  intro n hn
  obtain ⟨q, start, rfl, hstands, -⟩ := h.part_of_mem_nodes hn
  have hspan := span_expr start q
  refine ⟨q, by rw [hspan]; rfl, by rw [hspan]; rfl, ?_⟩
  rw [hspan]
  exact hstands.text?

/-- A call with blanks, a bracket in a literal and a sign. -/
theorem IsReadable.ofText_call_eq_ok :
    Expr.ofText (· == ['f'])
        ['f', '(', ' ', '\x27', ')', ' ', '\x27', ' ', ',', '-', '1', ' ', '*', '(', '$', 'a', ')',
          ')'] =
      .ok (.call ⟨0, 15⟩ ['f'] [.string ⟨2, 6⟩ [')', ' '],
        .binary .mul (.number ⟨7, 9⟩ (-Decimal.literalValue ['1']))
          (.group ⟨10, 14⟩ (.ref ⟨11, 13⟩ .model ⟨[['a']]⟩))]) := by
  have hpath : (Path.mk [['a']]).IsPlain :=
    ⟨List.forall_mem_singleton.2 (List.forall_mem_singleton.2 rfl), by decide⟩
  have hdigits : IsNumeral ['1'] := .singleton rfl
  have hproduct : IsSpelled (· == ['f'])
      (.binary .mul (.number (some .minus) ['1']) (.group (.ref .model ⟨[['a']]⟩))) :=
    .binary .mul (.number (some .minus) hdigits) (.group (.ref .model hpath))
  have hspelled : IsSpelled (· == ['f']) (.call ['f'] [.string [')', ' '],
      .binary .mul (.number (some .minus) ['1']) (.group (.ref .model ⟨[['a']]⟩))]) := by
    refine .call rfl rfl (List.forall_mem_cons.2 ⟨.string (by decide) (by decide), ?_⟩) ?_
    · exact List.forall_mem_singleton.2 hproduct
    · simp [tokenCount, maxTokens]
  have hreadable : IsReadable (· == ['f']) (.call ['f'] [.string [')', ' '],
      .binary .mul (.number (some .minus) ['1']) (.group (.ref .model ⟨[['a']]⟩))]) := by
    refine ⟨hspelled, ?_, by decide, by decide⟩
    intro op left right hmem
    simp only [expr, exprs, Expr.nodes, Expr.nodesAll, List.append_nil, List.cons_append,
      List.nil_append, List.mem_cons, reduceCtorEq, false_or, or_false, Expr.binary.injEq,
      List.not_mem_nil] at hmem
    obtain ⟨rfl, rfl, rfl⟩ := hmem
    exact ⟨trivial, trivial⟩
  exact (hreadable.ofText_eq_ok (.keep _ (.keep _ (.blank ' ' rfl (.keep _ (.keep _ (.keep _
    (.keep _ (.blank ' ' rfl (.keep _ (.keep _ (.keep _ (.blank ' ' rfl (.refl _ _)))))))))))))).1

end Assertions.Phrase
