import Assertions.Template
import Assertions.Proofs.CallSites
import Assertions.Proofs.Lexing
import Assertions.Proofs.Parts

/-!
# Words of a template

Reading a template goes from left to right, segment by segment, so templates and what is found in
them can be cut at every gap between words. A call in a template is found whole exactly if no
gap lies inside it.
-/

namespace Assertions.Template

/-! ### Segments -/

/-- A character that is no gap joins the segments in front of which it stands. -/
theorem joinWord_append {c : Char} {list others : List Segment} (h : list ≠ []) :
    joinWord c (list ++ others) = joinWord c list ++ others := by
  cases list with
  | nil => exact absurd rfl h
  | cons segment rest => cases segment <;> rfl

/-- Whether a word at the end of a text would go on in front of `rest`. -/
def StartsApart (before rest : Text) : Prop :=
  ∀ word others, segments before rest ≠ .word word :: others

theorem startsApart_nil (before : Text) : StartsApart before [] := by
  intro word others h
  cases h

theorem startsApart_of_isGap {before rest : Text} {c : Char} (h : isGap before c rest = true) :
    StartsApart before (c :: rest) := by
  intro word others heq
  rw [segments, if_pos h] at heq
  cases heq

/-- Segments are cut where no word goes on. -/
theorem segments_append {a rest : Text} :
    ∀ {before : Text}, StartsApart (a.reverse ++ before) rest →
      ∃ list, segments before (a ++ rest) = list ++ segments (a.reverse ++ before) rest ∧
        list.flatMap Segment.text = a := by
  induction a with
  | nil =>
    intro before _
    exact ⟨[], rfl, rfl⟩
  | cons c tail ih =>
    intro before h
    rw [List.reverse_cons, List.append_assoc, List.singleton_append] at h ⊢
    obtain ⟨list, hlist, htext⟩ := ih h
    rw [List.cons_append, segments, hlist]
    split
    · exact ⟨.gap c :: list, rfl, by rw [List.flatMap_cons, htext]; rfl⟩
    · refine ⟨joinWord c list, ?_, by rw [text_joinWord, htext]⟩
      cases list with
      | cons segment others => exact joinWord_append (List.cons_ne_nil _ _)
      | nil =>
        rw [List.nil_append]
        cases hrest : segments (tail.reverse ++ c :: before) rest with
        | nil => rfl
        | cons segment others =>
          cases segment with
          | gap => rfl
          | word word => exact absurd hrest (h word others)

/-- A text without gaps is one word. -/
theorem segments_word {a rest : Text} :
    ∀ {before : Text}, a ≠ [] →
      (∀ x c y, a = x ++ c :: y → isGap (x.reverse ++ before) c (y ++ rest) = false) →
      StartsApart (a.reverse ++ before) rest →
      segments before (a ++ rest) = .word a :: segments (a.reverse ++ before) rest := by
  induction a with
  | nil =>
    intro before hne
    exact absurd rfl hne
  | cons c tail ih =>
    intro before _ hgap h
    have hc : ¬isGap before c (tail ++ rest) = true := by
      have := hgap [] c tail rfl
      simpa using this
    rw [List.reverse_cons, List.append_assoc, List.singleton_append] at h ⊢
    rw [List.cons_append, segments, if_neg hc]
    by_cases htail : tail = []
    · subst htail
      rw [List.nil_append, List.reverse_nil, List.nil_append] at *
      cases hrest : segments (c :: before) rest with
      | nil => rfl
      | cons segment others =>
        cases segment with
        | gap => rfl
        | word word => exact absurd hrest (h word others)
    · have hgap' : ∀ x d y, tail = x ++ d :: y →
          isGap (x.reverse ++ c :: before) d (y ++ rest) = false := by
        intro x d y heq
        have := hgap (c :: x) d y (by rw [heq]; rfl)
        simpa using this
      rw [ih htail hgap' h]
      rfl

/-! ### Pieces -/

section

variable {names : Text → Bool}

theorem readSegments_cons_eq_ok {offset : Nat} {segment : Segment} {others : List Segment}
    {found : List Piece} : readSegments names offset (segment :: others) = .ok found ↔
      ∃ here more, readSegment names offset segment = .ok here ∧
        readSegments names (offset + Text.size segment.text) others = .ok more ∧
        found = here ++ more := by
  rw [readSegments]
  cases readSegment names offset segment with
  | error fault => simp
  | ok here =>
    cases readSegments names (offset + Text.size segment.text) others with
    | error fault => simp
    | ok more => simp [eq_comm]

/-- What is found in segments is what is found in the first and in the last of them. -/
theorem readSegments_append_eq_ok {a b : List Segment} {offset : Nat} {found : List Piece} :
    readSegments names offset (a ++ b) = .ok found ↔
      ∃ front back, readSegments names offset a = .ok front ∧
        readSegments names (offset + Text.size (a.flatMap Segment.text)) b = .ok back ∧
        found = front ++ back := by
  induction a generalizing offset found with
  | nil => simp [readSegments, eq_comm]
  | cons segment others ih =>
    simp only [List.cons_append, readSegments_cons_eq_ok, ih, List.flatMap_cons, Text.size_append,
      Nat.add_assoc]
    constructor
    · rintro ⟨here, _, hhere, ⟨front, back, hfront, hback, rfl⟩, rfl⟩
      exact ⟨here ++ front, back, ⟨here, front, hhere, hfront, rfl⟩, hback,
        (List.append_assoc _ _ _).symm⟩
    · rintro ⟨_, back, ⟨here, front, hhere, hfront, rfl⟩, hback, rfl⟩
      exact ⟨here, front ++ back, hhere, ⟨front, back, hfront, hback, rfl⟩,
        List.append_assoc _ _ _⟩

theorem placedReferences_append (offset : Nat) (a b : List Piece) :
    placedReferences offset (a ++ b) =
      placedReferences offset a ++
        placedReferences (offset + Text.size (a.flatMap Piece.text)) b := by
  induction a generalizing offset with
  | nil => rfl
  | cons piece others ih =>
    cases piece with
    | plain text =>
      simp only [List.cons_append, placedReferences, ih, List.flatMap_cons, Piece.text,
        Text.size_append, Nat.add_assoc]
    | reference r =>
      simp only [List.cons_append, placedReferences, ih, List.flatMap_cons, Piece.text,
        Text.size_append, Nat.add_assoc]

/-- Each reference has the span at which its text stands in the text of the pieces. -/
theorem standsAt_of_mem_placedReferences {offset : Nat} {list : List Piece} {span : Span}
    {r : Reference} (h : (span, r) ∈ placedReferences offset list) :
    ∃ start, span = ⟨offset + start, offset + start + Text.size r.text⟩ ∧
      StandsAt r.text start (list.flatMap Piece.text) := by
  induction list generalizing offset with
  | nil => cases h
  | cons piece others ih =>
    have hpiece : StandsAt (others.flatMap Piece.text) (Text.size piece.text)
        ((piece :: others).flatMap Piece.text) := ⟨piece.text, [], by simp, rfl⟩
    cases piece with
    | plain text =>
      obtain ⟨start, rfl, hstands⟩ := ih h
      refine ⟨Text.size text + start, ?_, hstands.trans hpiece⟩
      rw [← Nat.add_assoc]
    | reference first =>
      rcases List.mem_cons.1 h with heq | hmem
      · cases heq
        exact ⟨0, rfl, [], others.flatMap Piece.text, rfl, rfl⟩
      · obtain ⟨start, rfl, hstands⟩ := ih hmem
        refine ⟨Text.size first.text + start, ?_, hstands.trans hpiece⟩
        rw [← Nat.add_assoc]

/-- References lie in the text of the pieces that they are found in. -/
theorem placedReferences_bounds {offset : Nat} {list : List Piece} {span : Span}
    {reference : Reference} (h : (span, reference) ∈ placedReferences offset list) :
    offset ≤ span.start ∧ span.stop ≤ offset + Text.size (list.flatMap Piece.text) := by
  obtain ⟨start, rfl, hstands⟩ := standsAt_of_mem_placedReferences h
  have hstop := hstands.stop_le
  show offset ≤ offset + start ∧ offset + start + Text.size reference.text ≤ _
  omega

/-- A word without an opening bracket can be read. -/
theorem readWord_of_noBrackets {word : Text} (h : Symbol.openBracket ∉ word) (offset : Nat) :
    ∃ found, readWord names offset word = .ok found := by
  have hword : word = word.takeWhile isWordChar ++ word.dropWhile isWordChar := by simp
  unfold readWord
  dsimp only
  split
  · split
    · exact ⟨_, rfl⟩
    · rename_i c rest hrest
      have hc : ¬(c == Symbol.openBracket) = true := by
        rw [beq_iff_eq]
        rintro rfl
        rw [hword, hrest] at h
        simp at h
      rw [if_neg hc]
      exact ⟨_, rfl⟩
  · exact ⟨_, rfl⟩

theorem readSegments_of_noBrackets {list : List Segment} {text : Text}
    (htext : list.flatMap Segment.text = text) (h : Symbol.openBracket ∉ text) (offset : Nat) :
    ∃ found, readSegments names offset list = .ok found := by
  rw [← htext] at h
  clear htext
  induction list generalizing offset with
  | nil => exact ⟨[], rfl⟩
  | cons segment others ih =>
    rw [List.flatMap_cons, List.mem_append, not_or] at h
    obtain ⟨more, hmore⟩ := ih h.2 (offset + Text.size segment.text)
    have hhere : ∃ here, readSegment names offset segment = .ok here := by
      cases segment with
      | gap c => exact ⟨_, rfl⟩
      | word text => exact readWord_of_noBrackets h.1 offset
    obtain ⟨here, hhere⟩ := hhere
    exact ⟨here ++ more, readSegments_cons_eq_ok.2 ⟨here, more, hhere, hmore, rfl⟩⟩

/-- A call with nothing behind it is one reference. -/
theorem readWord_call {name body : Text} (hname : isIdentifier name = true)
    (hknown : names name = true) (hbody : Balanced body) (offset : Nat) :
    readWord names offset (name ++ Symbol.openBracket :: body ++ [Symbol.closeBracket]) =
      .ok [.reference ⟨.call, name ++ Symbol.openBracket :: body ++ [Symbol.closeBracket]⟩,
        .plain []] := by
  obtain ⟨htake, hdrop⟩ := takeWhile_dropWhile_append (fun _ => isWordChar_of_mem_name hname)
    (endsName_openBracket (body ++ [Symbol.closeBracket]))
  have hclose := enclosed?_of_balanced hbody []
  rw [List.append_assoc, List.cons_append, readWord]
  simp only [htake, hdrop, hname, hknown, hclose, Bool.and_self, if_true, beq_self_eq_true,
    List.append_assoc, List.cons_append]

end

end Assertions.Template
