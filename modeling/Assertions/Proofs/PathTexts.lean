import Assertions.Proofs.Origin
import Assertions.Proofs.Parts
import Assertions.Proofs.References

/-!
# Paths and their texts

The text of a path and the path of a text undo each other as far as they can. Every text is the text
of its path. A list of segments is what its text is cut into unless a segment holds a dot, which
cuts it in two, or the list is one empty segment, whose text is that of the root.

Neither can happen to the path of a text, so the paths of expressions and of messages can be told
apart by their texts.
-/

namespace Assertions

namespace Path

/-- Joining segments can be undone exactly if no segment has a dot and the list is not one empty
segment. -/
theorem ofText_joinDots_iff {segments : List Text} :
    ofText (joinDots segments) = ⟨segments⟩ ↔
      (∀ segment ∈ segments, Symbol.dot ∉ segment) ∧ segments ≠ [[]] := by
  constructor
  · intro h
    have hsegments : (ofText (joinDots segments)).segments = segments := congrArg Path.segments h
    constructor
    · intro segment hsegment hdot
      rw [← hsegments] at hsegment
      exact (mem_of_mem_ofText hsegment hdot).2 rfl
    · rw [← hsegments]
      exact segments_ofText_ne _
  · rintro ⟨hdots, hne⟩
    exact ofText_joinDots hdots hne

/-- The paths that are read in an expression, wherever in it they stand, and those that a message
refers to. -/
inductive Occurs : Path → Prop
  | inExpression {names : Text → Bool} {source : Text} {e : Expr} {span : Span} {side : Side}
    {path : Path} (hread : Expr.ofText names source = .ok e)
    (hmem : .ref span side path ∈ e.nodes) : Occurs path
  | inMessage {names : Text → Bool} {template text : Text} {found : List (Span × Reference)}
    {span : Span} {side : Side} {path : Path}
    (hread : Template.references names template = .ok found)
    (hmem : (span, ⟨.path side path, text⟩) ∈ found) : Occurs path

/-- A path in an expression is one that a reference can have. -/
theorem isPlain_of_mem_nodes {names : Text → Bool} {source : Text} {e : Expr} {span : Span}
    {side : Side} {path : Path} (h : Expr.ofText names source = .ok e)
    (hmem : .ref span side path ∈ e.nodes) : path.IsPlain := by
  obtain ⟨p, hp, -, rfl⟩ := exists_phrase_of_ofText h
  obtain ⟨q, start, hq, -, hspelled, -⟩ := hp.spelled.part_of_mem_nodes hp.tokenCount_le hmem
  cases hspelled with
  | ref _ hpath =>
    cases hq
    exact hpath
  | _ => cases hq

/-- A path in a message is one that a reference can have. -/
theorem isPlain_of_mem_references {names : Text → Bool} {template text : Text}
    {found : List (Span × Reference)} {span : Span} {side : Side} {path : Path}
    (h : Template.references names template = .ok found)
    (hmem : (span, ⟨.path side path, text⟩) ∈ found) : path.IsPlain := by
  cases Template.isSpelled_of_mem_references h hmem with
  | path _ hpath => exact isPlain_ofText hpath

/-- A path that occurs is read back from its text. -/
theorem Occurs.ofText_toText_eq {path : Path} (h : path.Occurs) : ofText path.toText = path := by
  cases h with
  | inExpression hread hmem => exact ofText_toText (isPlain_of_mem_nodes hread hmem)
  | inMessage hread hmem => exact ofText_toText (isPlain_of_mem_references hread hmem)

/-- **Paths and texts.** Every text is the text of its path. Segments are read back from their text
exactly if none of them has a dot and they are not one empty segment. So every path that occurs in
an expression or in a message is read back from its text, and no two of them have the same text. -/
theorem texts_determine_paths :
    (∀ text : Text, (ofText text).toText = text) ∧
    (∀ segments : List Text, ofText (Path.mk segments).toText = ⟨segments⟩ ↔
      (∀ segment ∈ segments, Symbol.dot ∉ segment) ∧ segments ≠ [[]]) ∧
    (∀ path : Path, path.Occurs → ofText path.toText = path) ∧
    (∀ p q : Path, p.Occurs → q.Occurs → p ≠ q → p.toText ≠ q.toText) := by
  refine ⟨toText_ofText, fun segments => ofText_joinDots_iff, fun path h => h.ofText_toText_eq, ?_⟩
  intro p q hp hq hne htext
  apply hne
  rw [← hp.ofText_toText_eq, ← hq.ofText_toText_eq, htext]

/-- A path with an empty segment at each end, and the same path without the last one. -/
theorem texts_determine_paths_open_ends :
    (Occurs ⟨[[], ['a'], []]⟩ ∧ ofText (Path.mk [[], ['a'], []]).toText = ⟨[[], ['a'], []]⟩) ∧
      Occurs ⟨[[], ['a']]⟩ ∧ (Path.mk [[], ['a'], []]).toText ≠ (Path.mk [[], ['a']]).toText := by
  have hends : Expr.ofText (fun _ => false) ['$', '.', 'a', '.'] =
      .ok (.ref ⟨0, 4⟩ .model ⟨[[], ['a'], []]⟩) := ofText_path .model (List.all_eq_true.1 rfl)
  have hstart : Expr.ofText (fun _ => false) ['#', '.', 'a'] =
      .ok (.ref ⟨0, 3⟩ .state ⟨[[], ['a']]⟩) := ofText_path .state (List.all_eq_true.1 rfl)
  have hp : Occurs ⟨[[], ['a'], []]⟩ := .inExpression hends (Expr.mem_nodes_self _)
  have hq : Occurs ⟨[[], ['a']]⟩ := .inExpression hstart (Expr.mem_nodes_self _)
  obtain ⟨-, -, hread, hapart⟩ := texts_determine_paths
  exact ⟨⟨hp, hread _ hp⟩, hq, hapart _ _ hp hq (by decide)⟩

end Path

end Assertions
