import Assertions.Proofs.Phrase

/-!
# Positions in a written expression

The tree of a phrase depends on the position of the phrase by a move and nothing else, and every
node of the tree is the tree of a part of the phrase, at the position where the text of that part
stands.
-/

namespace Assertions

/-- Whether a text stands at byte position `start` of another one. -/
def StandsAt (part : Text) (start : Nat) (whole : Text) : Prop :=
  ∃ before after, whole = before ++ part ++ after ∧ Text.size before = start

namespace StandsAt

variable {part middle whole : Text} {inner outer start : Nat}

theorem refl (text : Text) : StandsAt text 0 text := ⟨[], [], by simp, rfl⟩

theorem trans (hinner : StandsAt part inner middle) (houter : StandsAt middle outer whole) :
    StandsAt part (outer + inner) whole := by
  obtain ⟨a, b, rfl, rfl⟩ := hinner
  obtain ⟨c, d, rfl, rfl⟩ := houter
  exact ⟨c ++ a, b ++ d, by simp, by simp⟩

/-- Where a text stands it can be cut out. -/
theorem text? (h : StandsAt part start whole) :
    (Span.mk start (start + Text.size part)).text? whole = some part := by
  obtain ⟨before, after, rfl, rfl⟩ := h
  exact Text.slice?_append before part after

theorem stop_le (h : StandsAt part start whole) : start + Text.size part ≤ Text.size whole := by
  obtain ⟨before, after, rfl, rfl⟩ := h
  simp

end StandsAt

/-- Whether a text can be cut at a position. -/
def IsBoundary (source : Text) (at' : Nat) : Prop :=
  ∃ before after, source = before ++ after ∧ Text.size before = at'

theorem isBoundary_size (source : Text) : IsBoundary source (Text.size source) :=
  ⟨source, [], (List.append_nil _).symm, rfl⟩

theorem IsBoundary.le_size {source : Text} {at' : Nat} (h : IsBoundary source at') :
    at' ≤ Text.size source := by
  obtain ⟨before, after, rfl, rfl⟩ := h
  rw [Text.size_append]
  exact Nat.le_add_right _ _

/-- Whether the spans of the nodes directly below the root lie inside that of the root, from left
to right and without overlap. -/
structure Expr.SpansNest (e : Expr) : Prop where
  start_le : ∀ child ∈ e.children, e.span.start ≤ child.span.start
  stop_le : ∀ child ∈ e.children, child.span.stop ≤ e.span.stop
  ordered : e.children.Pairwise fun a b => a.span.stop ≤ b.span.start

namespace Phrase

/-! ### Positions -/

theorem spanAt_add (offset k : Nat) (p : Phrase) :
    spanAt (offset + k) p = (spanAt offset p).shift k := by
  simp only [spanAt, Span.shift, Nat.add_right_comm]

/-- The tree of a phrase has the span of its text. -/
theorem span_expr (offset : Nat) (p : Phrase) : (p.expr offset).span = p.spanAt offset := by
  induction p generalizing offset with
  | ref | string | number | statement | call | group => rfl
  | binary op left right ihl ihr =>
    simp only [expr, Expr.span, ihl, ihr, spanAt, text, Text.size_append, Nat.add_assoc]

theorem shiftAll_exprs {k : Nat} {args : List Phrase}
    (h : ∀ arg ∈ args, ∀ offset, (arg.expr offset).shift k = arg.expr (offset + k))
    (offset : Nat) : Expr.shiftAll k (exprs offset args) = exprs (offset + k) args := by
  induction args generalizing offset with
  | nil => rfl
  | cons arg rest ih =>
    obtain ⟨harg, hrest⟩ := List.forall_mem_cons.1 h
    have hnext : offset + k + Text.size arg.text + 1 = offset + Text.size arg.text + 1 + k := by
      omega
    rw [exprs, Expr.shiftAll, harg, ih hrest, exprs, hnext]

/-- The tree of a phrase that stands `k` bytes later is moved by `k`. -/
theorem shift_expr (offset k : Nat) (p : Phrase) :
    (p.expr offset).shift k = p.expr (offset + k) := by
  induction p generalizing offset with
  | ref | string | number | statement => simp only [expr, Expr.shift, spanAt_add]
  | call name args ih =>
    have hargs : offset + k + Text.size name + 1 = offset + Text.size name + 1 + k := by omega
    rw [expr, Expr.shift, shiftAll_exprs ih, expr, spanAt_add, hargs]
  | binary op left right ihl ihr =>
    have hright : offset + k + Text.size left.text + Text.size op.spelling =
        offset + Text.size left.text + Text.size op.spelling + k := by omega
    rw [expr, Expr.shift, ihl, ihr, expr, hright]
  | group inner ih =>
    have hinner : offset + k + 1 = offset + 1 + k := by omega
    rw [expr, Expr.shift, ih, expr, spanAt_add, hinner]

/-- The tokens of a phrase that stands `k` bytes later are moved by `k`. -/
theorem shift_tokens (offset k : Nat) (p : Phrase) :
    (p.tokens offset).map (·.shift k) = p.tokens (offset + k) := by
  induction p generalizing offset with
  | ref | string | statement => simp [tokens, PlacedToken.shift, Token.shift, spanAt_add]
  | call name args =>
    simp only [tokens, List.map_cons, List.map_nil, PlacedToken.shift, Token.shift, spanAt_add]
    congr 3
    omega
  | number sign digits =>
    cases sign <;>
      simp [tokens, PlacedToken.shift, Token.shift, Span.shift, Nat.add_right_comm]
  | binary op left right ihl ihr =>
    simp only [tokens, List.map_append, List.map_cons, ihl, ihr]
    simp only [PlacedToken.shift, Token.shift, Span.shift, Nat.add_right_comm _ _ k]
  | group inner ih =>
    simp only [tokens, List.map_append, List.map_cons, List.map_nil, ih]
    simp only [PlacedToken.shift, Token.shift, Span.shift, Nat.add_right_comm _ _ k]

/-! ### Parts -/

/-- Each of several trees is that of one of the phrases, at the position of its text. -/
theorem standsAt_of_mem_exprs {args : List Phrase} {offset : Nat} {e : Expr}
    (h : e ∈ exprs offset args) :
    ∃ arg ∈ args, ∃ start, e = arg.expr (offset + start) ∧
      StandsAt arg.text start (joinCommas (texts args)) := by
  induction args generalizing offset with
  | nil => cases h
  | cons first others ih =>
    rcases List.mem_cons.1 h with rfl | hrest
    · refine ⟨first, List.mem_cons_self, 0, rfl, ?_⟩
      cases others with
      | nil => exact .refl first.text
      | cons next rest => exact ⟨[], Symbol.comma :: joinCommas (texts (next :: rest)), rfl, rfl⟩
    · obtain ⟨arg, harg, start, rfl, hstands⟩ := ih hrest
      cases others with
      | nil => cases harg
      | cons next rest =>
        have htail : StandsAt (joinCommas (texts (next :: rest))) (Text.size first.text + 1)
            (joinCommas (texts (first :: next :: rest))) := by
          refine ⟨first.text ++ [Symbol.comma], [], ?_, ?_⟩
          · simp [texts]
          · rw [Text.size_append]
            rfl
        refine ⟨arg, List.mem_cons_of_mem first harg, Text.size first.text + 1 + start, ?_,
          hstands.trans htail⟩
        congr 1
        omega

/-- The text of an argument list stands behind the opening bracket. -/
theorem standsAt_args (name : Text) (args : List Phrase) :
    StandsAt (joinCommas (texts args)) (Text.size name + 1) (Phrase.call name args).text := by
  refine ⟨name ++ [Symbol.openBracket], [Symbol.closeBracket], ?_, ?_⟩
  · simp [text]
  · rw [Text.size_append]
    rfl

theorem standsAt_left (op : Operator) (left right : Phrase) :
    StandsAt left.text 0 (Phrase.binary op left right).text :=
  ⟨[], op.spelling ++ right.text, by simp [text], rfl⟩

theorem standsAt_right (op : Operator) (left right : Phrase) :
    StandsAt right.text (Text.size left.text + Text.size op.spelling)
      (Phrase.binary op left right).text :=
  ⟨left.text ++ op.spelling, [], by simp [text], by simp⟩

theorem standsAt_inner (inner : Phrase) : StandsAt inner.text 1 (Phrase.group inner).text :=
  ⟨[Symbol.openBracket], [Symbol.closeBracket], rfl, rfl⟩

variable {names : Text → Bool} {p : Phrase}

/-- **Parts.** Every node of the tree of a phrase is the tree of a phrase whose text stands at its
position, and which has not too many tokens either. -/
theorem IsSpelled.part_of_mem_nodes (h : p.IsSpelled names) (hcount : p.tokenCount ≤ maxTokens)
    {offset : Nat} {n : Expr} (hn : n ∈ (p.expr offset).nodes) :
    ∃ (q : Phrase) (start : Nat), n = q.expr (offset + start) ∧ StandsAt q.text start p.text ∧
      q.IsSpelled names ∧ q.tokenCount ≤ maxTokens := by
  induction h generalizing offset with
  | ref side hpath =>
    cases List.mem_singleton.1 hn
    exact ⟨_, 0, rfl, .refl _, .ref side hpath, hcount⟩
  | string hquote hforbidden =>
    cases List.mem_singleton.1 hn
    exact ⟨_, 0, rfl, .refl _, .string hquote hforbidden, hcount⟩
  | number sign hdigits =>
    cases List.mem_singleton.1 hn
    exact ⟨_, 0, rfl, .refl _, .number sign hdigits, hcount⟩
  | statement hname hknown =>
    cases List.mem_singleton.1 hn
    exact ⟨_, 0, rfl, .refl _, .statement hname hknown, hcount⟩
  | call hname hknown hargs hcounts ih =>
    rename_i name args
    rcases List.mem_cons.1 hn with rfl | hmem
    · exact ⟨_, 0, rfl, .refl _, .call hname hknown hargs hcounts, hcount⟩
    · obtain ⟨e, he, hmem⟩ := Expr.mem_nodesAll.1 hmem
      obtain ⟨arg, harg, at', rfl, hstands⟩ := standsAt_of_mem_exprs he
      obtain ⟨q, start, rfl, hq, hspelled⟩ := ih arg harg (hcounts arg harg) hmem
      refine ⟨q, Text.size name + 1 + (at' + start), ?_,
        (hq.trans hstands).trans (standsAt_args name args), hspelled⟩
      congr 1
      omega
  | binary op hleft hright ihl ihr =>
    rename_i left right
    rw [tokenCount] at hcount
    rcases List.mem_cons.1 hn with rfl | hmem
    · exact ⟨_, 0, rfl, .refl _, .binary op hleft hright, hcount⟩
    · rcases List.mem_append.1 hmem with hmem | hmem
      · obtain ⟨q, start, rfl, hq, hspelled⟩ := ihl (by omega) hmem
        have hstands := hq.trans (standsAt_left op left right)
        rw [Nat.zero_add] at hstands
        exact ⟨q, start, rfl, hstands, hspelled⟩
      · obtain ⟨q, start, rfl, hq, hspelled⟩ := ihr (by omega) hmem
        refine ⟨q, _, ?_, hq.trans (standsAt_right op left right), hspelled⟩
        congr 1
        omega
  | group hinner ih =>
    rename_i inner
    rw [tokenCount] at hcount
    rcases List.mem_cons.1 hn with rfl | hmem
    · exact ⟨_, 0, rfl, .refl _, .group hinner, hcount⟩
    · obtain ⟨q, start, rfl, hq, hspelled⟩ := ih (by omega) hmem
      refine ⟨q, _, ?_, hq.trans (standsAt_inner inner), hspelled⟩
      rw [Nat.add_assoc]

/-! ### Spans -/

theorem pairwise_exprs (offset : Nat) (args : List Phrase) :
    (exprs offset args).Pairwise fun a b => a.span.stop ≤ b.span.start := by
  induction args generalizing offset with
  | nil => exact .nil
  | cons first others ih =>
    refine .cons ?_ (ih _)
    intro e he
    obtain ⟨arg, -, start, rfl, -⟩ := standsAt_of_mem_exprs he
    simp only [span_expr, spanAt]
    omega

/-- The spans in the tree of a phrase nest. -/
theorem spansNest_expr (offset : Nat) (p : Phrase) : (p.expr offset).SpansNest := by
  cases p with
  | ref | string | number | statement => exact ⟨nofun, nofun, .nil⟩
  | call name args =>
    have hinside : ∀ e ∈ exprs (offset + Text.size name + 1) args,
        offset ≤ e.span.start ∧ e.span.stop ≤ offset + Text.size (Phrase.call name args).text := by
      intro e he
      obtain ⟨arg, -, start, rfl, hstands⟩ := standsAt_of_mem_exprs he
      have hstop := (hstands.trans (standsAt_args name args)).stop_le
      simp only [span_expr, spanAt]
      constructor <;> omega
    exact ⟨fun e he => (hinside e he).1, fun e he => (hinside e he).2, pairwise_exprs _ args⟩
  | binary op left right =>
    have hright := (standsAt_right op left right).stop_le
    have hspan := span_expr offset (.binary op left right)
    constructor
    · rw [hspan]
      refine List.forall_mem_cons.2 ⟨?_, List.forall_mem_singleton.2 ?_⟩ <;>
        simp only [span_expr, spanAt] <;> omega
    · rw [hspan]
      refine List.forall_mem_cons.2 ⟨?_, List.forall_mem_singleton.2 ?_⟩ <;>
        simp only [span_expr, spanAt] <;> omega
    · refine List.pairwise_pair.2 ?_
      simp only [span_expr, spanAt]
      omega
  | group inner =>
    have hinner := (standsAt_inner inner).stop_le
    have hspan := span_expr offset (.group inner)
    constructor
    · rw [hspan]
      refine List.forall_mem_singleton.2 ?_
      simp only [span_expr, spanAt]
      omega
    · rw [hspan]
      refine List.forall_mem_singleton.2 ?_
      simp only [span_expr, spanAt]
      omega
    · exact List.pairwise_singleton _ _

end Phrase

end Assertions
