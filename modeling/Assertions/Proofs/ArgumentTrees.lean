import Assertions.Proofs.AddedBrackets
import Assertions.Proofs.FaultSpans
import Assertions.Proofs.MovedFragments

/-!
# The arguments of a call

An argument of a call that was read is a text between commas. Read by itself that text gives the
same tree as in the call, except that it stands at the start (`Phrase.IsReadable.ownTrees`).

This is what reading at a position comes to (`ofFragment_move`) when it is used again for every call
inside a call. Together with the two ways to compile, in one step or by way of the tokens, it makes
up `fragments_move`.
-/

namespace Assertions

/-- Whether the arguments of a call are the trees of their own texts. The span of the call holds its
name and the list of arguments, there are as many arguments as pieces of the list, each piece stands
in the text where it is said to, and the argument is the tree of the piece by itself, moved to that
place. -/
structure HasOwnTrees (names : Text → Bool) (condensed : Text) (span : Span) (name list : Text)
    (args : List Expr) : Prop where
  text : span.text? condensed =
    some (name ++ Symbol.openBracket :: list ++ [Symbol.closeBracket])
  length : (splitArguments list).length = args.length
  piece : ∀ (k at' : Nat) (piece : Text), (splitArguments list)[k]? = some (at', piece) →
    (Span.mk (span.start + Text.size name + 1 + at')
        (span.start + Text.size name + 1 + at' + Text.size piece)).text? condensed = some piece
  tree : ∀ (k at' : Nat) (piece : Text), (splitArguments list)[k]? = some (at', piece) →
    ∃ tree, Expr.ofText names piece = .ok tree ∧
      args[k]? = some (tree.shift (span.start + Text.size name + 1 + at'))

namespace Phrase

variable {names : Text → Bool}

/-- The trees of several phrases stand where their texts are placed. -/
theorem exists_of_getElem?_placed {args : List Phrase} {start k at' : Nat} {piece : Text}
    (offset : Nat) (h : (placed start (texts args))[k]? = some (at', piece)) :
    ∃ arg ∈ args, piece = arg.text ∧
      (exprs (offset + start) args)[k]? = some (arg.expr (offset + at')) := by
  induction args generalizing start k with
  | nil => cases h
  | cons first others ih =>
    cases k with
    | zero =>
      cases h
      exact ⟨first, List.mem_cons_self, rfl, rfl⟩
    | succ k =>
      obtain ⟨arg, harg, hpiece, hexpr⟩ := ih h
      refine ⟨arg, List.mem_cons_of_mem first harg, hpiece, ?_⟩
      rw [← Nat.add_assoc, ← Nat.add_assoc] at hexpr
      exact hexpr

/-- **Arguments by themselves.** The arguments of a call in a readable phrase are the trees of their
own texts, moved to where these stand. -/
theorem IsReadable.ownTrees {p : Phrase} (h : p.IsReadable names) {span : Span} {name : Text}
    {args : List Expr} (hcall : .call span name args ∈ (p.expr 0).nodes) :
    ∃ list, HasOwnTrees names p.text span name list args := by
  obtain ⟨q, start, hq, hstands, hreadable⟩ := h.part_of_mem_nodes hcall
  cases hreadable.spelled with
  | call hname hknown hargs hcounts =>
    rename_i args
    cases hq
    have hsplit := splitArguments_texts hargs
    refine ⟨joinCommas (texts args), ?_, ?_, ?_, ?_⟩
    · exact hstands.text?
    · rw [hsplit, length_placed, texts_eq_map, List.length_map, length_exprs]
    · intro k at' piece hpiece
      rw [hsplit] at hpiece
      obtain ⟨before, after, hjoin, rfl, -⟩ :=
        exists_of_mem_placed (List.mem_of_getElem? hpiece)
      have hinside : StandsAt piece (Text.size before) (joinCommas (texts args)) :=
        ⟨before, after, hjoin, rfl⟩
      have hwhole := ((hinside.trans (standsAt_args _ args)).trans hstands).text?
      rw [Nat.zero_add]
      rw [← Nat.add_assoc, ← Nat.add_assoc] at hwhole
      exact hwhole
    · intro k at' piece hpiece
      rw [hsplit] at hpiece
      obtain ⟨arg, harg, rfl, hexpr⟩ := exists_of_getElem?_placed (start + Text.size _ + 1) hpiece
      rw [Nat.add_zero] at hexpr
      have hmem := Expr.mem_nodes_trans
        (Expr.mem_nodes_of_mem_children (List.mem_of_getElem? hexpr)) hcall
      have hread := (h.of_mem_nodes hmem (hargs arg harg) (hcounts arg harg)).ofText_of_spaced
        (.refl false arg.text)
      refine ⟨arg.expr 0, hread, ?_⟩
      rw [shift_expr, Nat.zero_add]
      exact hexpr
  | _ => cases hq

end Phrase

/-! ### The ways to compile -/

/-- Cutting a text into tokens and reading these is reading the text. -/
theorem bind_lex_eq_ofText (names : Text → Bool) (source : Text) :
    ((lex names source).bind fun lexed => Expr.ofTokens names lexed.2) =
      Expr.ofText names source := by
  rw [lex_eq_map, Expr.ofText, Expr.ofFragment, fragment_eq_bind]
  cases tokenize names 0 (condense source) <;> rfl

/-- **Fragments at positions.** A text that is not empty is read at a position, inside any number of
brackets and calls, as it is at the start, but with every span moved. Compiling by way of the
tokens, as formulas and assertions do, gives the tree of reading at once, or its fault moved to the
position. An argument of a call is the tree of its own text, moved to where this stands in the text
around it. -/
theorem fragments_move :
    (∀ (names : Text → Bool) (depth base : Nat) (text : Text), text ≠ [] →
      (∀ tree, Expr.ofFragment names depth 0 text = .ok tree →
        Expr.ofFragment names depth base text = .ok (tree.shift base)) ∧
      ∀ fault, Expr.ofFragment names depth 0 text = .error fault →
        ∃ moved, Expr.ofFragment names depth base text = .error moved ∧
          moved.span = fault.span.shift base ∧ fault.SameWords moved) ∧
    (∀ (functions : Repertoire) (base : Nat) (source : Text),
      (lex functions.contains source).bind
          (fun lexed => Expr.ofTokens functions.contains lexed.2) =
        Expr.ofText functions.contains source ∧
      (Expr.compile functions base source).result =
        (Expr.ofText functions.contains source).mapError fun f => .fault (f.shift base)) ∧
    (∀ (names : Text → Bool) (source : Text) (tree : Expr), Expr.ofText names source = .ok tree →
      ∀ span name args, .call span name args ∈ tree.nodes →
        ∃ list, HasOwnTrees names (condense source) span name list args) := by
  refine ⟨?_, fun functions base source => ⟨bind_lex_eq_ofText _ source,
    Expr.result_compile functions base source⟩, ?_⟩
  · intro names depth base text hne
    have hmove := ofFragment_move names depth base hne
    constructor
    · intro tree htree
      rw [hmove, htree]
      rfl
    · intro fault hfault
      refine ⟨fault.move base, ?_, rfl, fault.sameWords_move base⟩
      rw [hmove, hfault]
      rfl
  · intro names source tree hread span name args hcall
    obtain ⟨p, hp, htext, rfl⟩ := exists_phrase_of_ofText hread
    rw [← htext]
    exact hp.ownTrees hcall

/-- An unknown argument of a call at position 5, and the second argument of another call. -/
theorem fragments_move_unknown :
    (∃ moved, Expr.ofFragment (· == ['f']) 3 5 ['f', '(', 'a', ')'] = .error moved ∧
      moved.span = ⟨7, 8⟩) ∧
    ∃ tree, Expr.ofText (· == ['f']) ['\x27', 'b', '\x27'] = .ok tree ∧
      tree.shift 5 = .string ⟨5, 8⟩ ['b'] := by
  obtain ⟨hfragment, -, hargument⟩ := fragments_move
  constructor
  · have hfault : Expr.ofFragment (· == ['f']) 3 0 ['f', '(', 'a', ')'] =
        .error ⟨.unknownFunction ['a'], ⟨2, 3⟩⟩ := rfl
    obtain ⟨moved, hmoved, hspan, -⟩ :=
      (hfragment _ 3 5 _ (List.cons_ne_nil _ _)).2 _ hfault
    exact ⟨moved, hmoved, hspan⟩
  · have hpath : (Path.mk [['a']]).IsPlain :=
      ⟨List.forall_mem_singleton.2 (List.forall_mem_singleton.2 rfl), by decide⟩
    have hspelled : Phrase.IsSpelled (· == ['f'])
        (.call ['f'] [.ref .model ⟨[['a']]⟩, .string ['b']]) := by
      refine .call rfl rfl (List.forall_mem_cons.2 ⟨.ref .model hpath, ?_⟩) ?_
      · exact List.forall_mem_singleton.2 (.string (by decide) (by decide))
      · simp [Phrase.tokenCount, maxTokens]
    have hordered :
        ((Phrase.call ['f'] [.ref .model ⟨[['a']]⟩, .string ['b']]).expr 0).IsOrdered := by
      intro op left right hmem
      simp [Phrase.expr, Phrase.exprs, Expr.nodes, Expr.nodesAll] at hmem
    have hread : Expr.ofText (· == ['f']) ['f', '(', '$', 'a', ',', '\x27', 'b', '\x27', ')'] =
        .ok (.call ⟨0, 9⟩ ['f'] [.ref ⟨2, 4⟩ .model ⟨[['a']]⟩, .string ⟨5, 8⟩ ['b']]) :=
      Phrase.IsReadable.ofText_of_spaced ⟨hspelled, hordered, by decide, by decide⟩ (.refl _ _)
    obtain ⟨list, htrees⟩ := hargument _ _ _ hread _ _ _ (Expr.mem_nodes_self _)
    have htext : some ['f', '(', '$', 'a', ',', '\x27', 'b', '\x27', ')'] =
        some ('f' :: '(' :: list ++ [')']) := htrees.text
    have hlist : ['$', 'a', ',', '\x27', 'b', '\x27'] = list :=
      List.append_cancel_right (List.cons.inj (List.cons.inj (Option.some.inj htext)).2).2
    subst hlist
    obtain ⟨tree, htree, harg⟩ := htrees.tree 1 3 ['\x27', 'b', '\x27'] rfl
    exact ⟨tree, htree, (Option.some.inj harg).symm⟩

end Assertions
