import Assertions.Proofs.Origin
import Assertions.Proofs.Printing

/-!
# Spans are faithful

What was read from a text is the tree of a phrase, so every node of it is the tree of a part of that
phrase and has the span of the text of that part. Since parts of readable phrases are readable, the
text that a span marks can be read by itself.
-/

namespace Assertions

variable {names : Text → Bool} {source : Text}

/-- **Faithful spans.** A node of an expression that was read from a text has a span that is not
empty, and the spans of the nodes below it lie inside, from left to right and without overlap. The
part of the condensed text that the span marks is read by itself as that node, except that it stands
at the start. -/
theorem ofText_slice_of_mem_nodes {e n : Expr} (h : Expr.ofText names source = .ok e)
    (hn : n ∈ e.nodes) :
    n.span.start < n.span.stop ∧ n.SpansNest ∧
      ∃ slice m, n.span.text? (condense source) = some slice ∧
        Expr.ofText names slice = .ok m ∧ m.shift n.span.start = n := by
  obtain ⟨p, hp, htext, rfl⟩ := exists_phrase_of_ofText h
  obtain ⟨q, start, rfl, hstands, hq⟩ := hp.part_of_mem_nodes hn
  have hspan : (q.expr start).span = ⟨start, start + Text.size q.text⟩ := Phrase.span_expr start q
  rw [htext] at hstands
  refine ⟨?_, Phrase.spansNest_expr start q, q.text, q.expr 0, ?_, ?_, ?_⟩
  · obtain ⟨c, rest, hc, -⟩ := hq.spelled.head_text
    have hpos : 0 < c.utf8Size := c.utf8Size_pos
    rw [hspan, hc, Text.size_cons]
    show start < start + (c.utf8Size + Text.size rest)
    omega
  · rw [hspan]
    exact hstands.text?
  · exact hq.ofText_of_spaced (.refl false q.text)
  · rw [hspan, Phrase.shift_expr, Nat.zero_add]

/-- The argument of a call with a blank in front of it. -/
theorem ofText_slice_argument :
    ∃ slice m, (Span.mk 2 4).text? (condense ['f', '(', ' ', '$', 'a', ')']) = some slice ∧
      Expr.ofText (· == ['f']) slice = .ok m ∧ m.shift 2 = .ref ⟨2, 4⟩ .model ⟨[['a']]⟩ := by
  have hpath : (Path.mk [['a']]).IsPlain :=
    ⟨List.forall_mem_singleton.2 (List.forall_mem_singleton.2 rfl), by decide⟩
  have hspelled : Phrase.IsSpelled (· == ['f']) (.call ['f'] [.ref .model ⟨[['a']]⟩]) :=
    .call rfl rfl (List.forall_mem_singleton.2 (.ref .model hpath)) (by decide)
  have hordered : ((Phrase.call ['f'] [.ref .model ⟨[['a']]⟩]).expr 0).IsOrdered := by
    intro op left right hmem
    simp [Phrase.expr, Phrase.exprs, Expr.nodes, Expr.nodesAll] at hmem
  have hread : Expr.ofText (· == ['f']) ['f', '(', ' ', '$', 'a', ')'] =
      .ok (.call ⟨0, 5⟩ ['f'] [.ref ⟨2, 4⟩ .model ⟨[['a']]⟩]) :=
    Phrase.IsReadable.ofText_of_spaced ⟨hspelled, hordered, by decide, by decide⟩
      (.keep _ (.keep _ (.blank ' ' rfl (.refl _ _))))
  have hmem : Expr.ref ⟨2, 4⟩ .model ⟨[['a']]⟩ ∈
      (Expr.call ⟨0, 5⟩ ['f'] [.ref ⟨2, 4⟩ .model ⟨[['a']]⟩]).nodes :=
    List.mem_cons_of_mem _ List.mem_cons_self
  exact (ofText_slice_of_mem_nodes hread hmem).2.2

end Assertions
