import Assertions.Proofs.References

/-!
# Paths in a text

The text of a path reaches as far as it can: behind it there is neither a word character nor a dot
with a word character behind. `ContinuesPath` says what a path would go on into. A text without
names is read by `paths` from the left to the right, and the recursion of `paths` carries both
results: what is found is such a path (`exists_of_mem_paths`), and no symbol in front of a word
character is passed over (`exists_mem_paths`).
-/

namespace Assertions

/-! ### Paths -/

/-- Whether a path has segments and each of them is a word that is not empty. -/
structure Path.IsProper (path : Path) : Prop where
  ne_nil : path.segments ≠ []
  word : ∀ segment ∈ path.segments, segment ≠ [] ∧ ∀ c ∈ segment, isWordChar c = true

/-- Whether a path in front of a text would go on into it. -/
def ContinuesPath (after : Text) : Prop :=
  ∃ c rest, isWordChar c = true ∧ (after = c :: rest ∨ after = Symbol.dot :: c :: rest)

theorem ContinuesPath.append {after : Text} (h : ContinuesPath after) (rest : Text) :
    ContinuesPath (after ++ rest) := by
  obtain ⟨c, tail, hc, heq⟩ := h
  refine ⟨c, tail ++ rest, hc, ?_⟩
  rcases heq with heq | heq
  · exact .inl (by rw [heq, List.cons_append])
  · exact .inr (by rw [heq, List.cons_append, List.cons_append])

/-- A blank does not belong to a path, and a text that ends or has a blank next ends a path if its
own characters do. -/
theorem not_continuesPath_append {after rest : Text} (h : ¬ContinuesPath after)
    (hrest : ∀ c ∈ rest.head?, Text.isBlank c = true) : ¬ContinuesPath (after ++ rest) := by
  have hword : ∀ c ∈ rest.head?, ¬isWordChar c = true := by
    intro c hc hword
    have hblank := hrest c hc
    rw [(isMark_of_isWordChar hword).not_isBlank] at hblank
    cases hblank
  intro hcontinues
  obtain ⟨c, tail, hc, heq⟩ := hcontinues
  cases after with
  | nil =>
    rw [List.nil_append] at heq
    rcases heq with heq | heq
    · exact hword c (by simp [heq]) hc
    · exact absurd (hrest Symbol.dot (by simp [heq])) (by decide)
  | cons first others =>
    rcases heq with heq | heq
    · obtain ⟨rfl, -⟩ := List.cons.inj heq
      exact h ⟨first, others, hc, .inl rfl⟩
    · obtain ⟨rfl, hothers⟩ := List.cons.inj heq
      cases others with
      | nil =>
        have hrest' : rest = c :: tail := hothers
        exact hword c (by simp [hrest']) hc
      | cons second more =>
        obtain ⟨rfl, -⟩ := List.cons.inj hothers
        exact h ⟨second, more, hc, .inr rfl⟩

/-- Every end of the text of a proper path continues a path. -/
theorem continuesPath_of_joinDots {segments : List Text}
    (hword : ∀ segment ∈ segments, segment ≠ [] ∧ ∀ c ∈ segment, isWordChar c = true) :
    ∀ {front back : Text}, Path.joinDots segments = front ++ back → back ≠ [] →
      ContinuesPath back := by
  induction segments with
  | nil =>
    intro front back heq hback
    exact absurd (List.append_eq_nil_iff.1 heq.symm).2 hback
  | cons segment others ih =>
    obtain ⟨⟨hne, hsegment⟩, hothers⟩ := List.forall_mem_cons.1 hword
    -- An end that starts within the first segment starts with a word character.
    have hinside : ∀ front c tail, segment = front ++ c :: tail → ∀ rest,
        ContinuesPath (c :: tail ++ rest) := by
      intro front c tail heq rest
      exact ⟨c, tail ++ rest, hsegment c (by simp [heq]), .inl rfl⟩
    intro front back heq hback
    cases others with
    | nil =>
      obtain ⟨c, tail, rfl⟩ := List.exists_cons_of_ne_nil hback
      simpa using hinside front c tail heq []
    | cons next more =>
      obtain ⟨d, ds, hnext⟩ := List.exists_cons_of_ne_nil (hothers next List.mem_cons_self).1
      have hdot : ContinuesPath (Symbol.dot :: Path.joinDots (next :: more)) := by
        rw [hnext, Path.joinDots_cons_char]
        exact ⟨d, _, (hothers next List.mem_cons_self).2 d (by simp [hnext]), .inr rfl⟩
      have hjoin : segment ++ Symbol.dot :: Path.joinDots (next :: more) = front ++ back := heq
      rcases List.append_eq_append_iff.1 hjoin with ⟨x, -, hx⟩ | ⟨x, hx, rfl⟩
      · cases x with
        | nil =>
          rw [List.nil_append] at hx
          rwa [← hx]
        | cons first x => exact ih hothers (List.cons.inj hx).2 hback
      · cases x with
        | nil => exact hdot
        | cons c tail => exact hinside front c tail hx _

namespace Template

/-! ### Cutting a path off -/

/-- What follows a path that was cut off does not continue it. -/
theorem not_continuesPath_splitPath (text : Text) : ¬ContinuesPath (splitPath text).2 := by
  induction text with
  | nil =>
    intro h
    obtain ⟨c, rest, -, heq | heq⟩ := h <;> cases heq
  | cons c rest ih =>
    simp only [splitPath]
    split
    · exact ih
    · rename_i hc
      intro h
      simp only [Bool.or_eq_true, Bool.and_eq_true, beq_iff_eq, not_or, not_and] at hc
      obtain ⟨d, tail, hd, heq | heq⟩ := h
      · obtain ⟨rfl, -⟩ := List.cons.inj heq
        exact hc.1 hd
      · obtain ⟨rfl, rfl⟩ := List.cons.inj heq
        exact hc.2 rfl (by simpa using hd)

/-- The segments of a path that was cut off are words. All but the first are not empty, and the
first is not if a word character starts the text. -/
theorem word_splitDots_splitPath (text : Text) :
    (∀ segment ∈ (Path.splitDots (splitPath text).1).1 :: (Path.splitDots (splitPath text).1).2,
        ∀ c ∈ segment, isWordChar c = true) ∧
      (∀ segment ∈ (Path.splitDots (splitPath text).1).2, segment ≠ []) ∧
      (text.head?.any isWordChar = true → (Path.splitDots (splitPath text).1).1 ≠ []) := by
  refine ⟨?_, ?_⟩
  · intro segment hsegment c hc
    obtain ⟨hmem, hdot⟩ := Path.mem_of_mem_splitDots hsegment hc
    have hpath := isPathChar_of_mem_splitPath c hmem
    simp only [Token.isPathChar, Bool.or_eq_true, beq_iff_eq] at hpath
    exact hpath.resolve_right hdot
  · induction text with
    | nil => simp [splitPath, Path.splitDots]
    | cons c rest ih =>
      obtain ⟨hothers, hfirst⟩ := ih
      simp only [splitPath]
      by_cases hword : isWordChar c = true
      · have hdot : ¬(c == Symbol.dot) = true := by
          rw [beq_iff_eq]
          intro heq
          rw [heq, dot_not_isWordChar] at hword
          cases hword
        rw [if_pos (by rw [hword, Bool.true_or])]
        simp only [Path.splitDots, if_neg hdot]
        exact ⟨hothers, fun _ => List.cons_ne_nil _ _⟩
      · have hhead : ¬(c :: rest).head?.any isWordChar = true := by simpa using hword
        split
        · rename_i hc
          simp only [Bool.or_eq_true, Bool.and_eq_true, hword, Bool.false_eq_true, false_or] at hc
          simp only [Path.splitDots, if_pos hc.1]
          exact ⟨List.forall_mem_cons.2 ⟨hfirst hc.2, hothers⟩, fun h => absurd h hhead⟩
        · exact ⟨by simp [Path.splitDots], fun h => absurd h hhead⟩

/-- A path that starts with a word character is proper. -/
theorem isProper_splitPath {text : Text} (h : text.head?.any isWordChar = true) :
    (Path.ofText (splitPath text).1).IsProper := by
  obtain ⟨hword, hothers, hfirst⟩ := word_splitDots_splitPath text
  have hne : ¬(splitPath text).1.isEmpty = true := by
    intro hempty
    have hnil := List.isEmpty_iff.1 hempty
    refine hfirst h ?_
    rw [hnil]
    rfl
  rw [Path.ofText, if_neg hne]
  refine ⟨List.cons_ne_nil _ _, ?_⟩
  intro segment hsegment
  refine ⟨?_, hword segment hsegment⟩
  rcases List.mem_cons.1 hsegment with heq | hmem
  · rw [heq]
    exact hfirst h
  · exact hothers segment hmem

/-! ### Paths in a word -/

theorem paths_nil : paths [] = [] := by
  rw [paths]

/-- A symbol in front of a word character starts a path. -/
theorem paths_cons_of_symbol {c : Char} {side : Side} {rest : Text} (hside : sideOf? c = some side)
    (hrest : rest.head?.any isWordChar = true) :
    paths (c :: rest) =
      .reference ⟨.path side (.ofText (splitPath rest).1), c :: (splitPath rest).1⟩ ::
        paths (splitPath rest).2 := by
  rw [paths, hside, hrest]

theorem paths_cons_of_other {c : Char} {rest : Text} (h : sideOf? c = none) :
    paths (c :: rest) = .plain [c] :: paths rest := by
  rw [paths, h]

/-- What is found in a text without names is a path that reaches as far as it can. -/
theorem exists_of_mem_paths {text : Text} {span : Span} {r : Reference} :
    ∀ {offset : Nat}, (span, r) ∈ placedReferences offset (paths text) →
      ∃ side path before after, r = ⟨.path side path, side.symbol :: path.toText⟩ ∧
        path.IsProper ∧ text = before ++ r.text ++ after ∧
        span = ⟨offset + Text.size before, offset + Text.size before + Text.size r.text⟩ ∧
        ¬ContinuesPath after := by
  fun_induction paths text with
  | case1 =>
    intro offset h
    cases h
  | case2 c rest side hhead hside path =>
    rename_i ih
    intro offset h
    have hsymbol := eq_symbol_of_sideOf? hside
    have hrest : path ++ (splitPath rest).2 = rest := append_splitPath rest
    rcases List.mem_cons.1 h with heq | hmem
    · cases heq
      refine ⟨side, .ofText path, [], (splitPath rest).2, ?_, isProper_splitPath hhead, ?_, rfl,
        not_continuesPath_splitPath rest⟩
      · rw [Path.toText_ofText, hsymbol]
      · rw [List.nil_append, List.cons_append, hrest]
    · obtain ⟨side', path', before, after, hr, hproper, htext, rfl, hafter⟩ := ih hmem
      refine ⟨side', path', c :: path ++ before, after, hr, hproper, ?_, ?_, hafter⟩
      · rw [List.append_assoc, List.append_assoc, ← List.append_assoc before, ← htext,
          List.cons_append, hrest]
      · rw [Text.size_append, ← Nat.add_assoc]
  | case3 c rest hother ih =>
    intro offset h
    obtain ⟨side', path', before, after, hr, hproper, htext, rfl, hafter⟩ := ih h
    refine ⟨side', path', c :: before, after, hr, hproper, ?_, ?_, hafter⟩
    · rw [htext, List.cons_append, List.cons_append]
    · rw [Text.size_cons, Text.size_cons, Text.size_nil, Nat.add_zero, ← Nat.add_assoc]

/-- Each symbol of a side with a word character behind it starts a path. A path that starts in front
of the symbol ends in front of it, because no path goes on over a symbol. -/
theorem exists_mem_paths {text back : Text} {side : Side}
    (hback : back.head?.any isWordChar = true) :
    ∀ {front : Text} (offset : Nat), text = front ++ side.symbol :: back →
      ∃ path found, (⟨offset + Text.size front, offset + Text.size front + Text.size found⟩,
        ⟨.path side path, found⟩) ∈ placedReferences offset (paths text) := by
  have hside : sideOf? side.symbol = some side := by cases side <;> rfl
  fun_induction paths text with
  | case1 =>
    intro front offset htext
    simp at htext
  | case2 c rest first hhead hfirst path =>
    rename_i ih
    intro front offset htext
    cases front with
    | nil =>
      obtain ⟨rfl, rfl⟩ := List.cons.inj htext
      cases hside.symm.trans hfirst
      exact ⟨_, _, List.mem_cons_self⟩
    | cons d front =>
      obtain ⟨rfl, hrest⟩ := List.cons.inj htext
      have hsplit : path ++ (splitPath rest).2 = front ++ side.symbol :: back :=
        (append_splitPath rest).trans hrest
      have hsymbol : side.symbol ∉ path := by
        intro hmem
        have hchar := isPathChar_of_mem_splitPath _ hmem
        cases side <;> exact absurd hchar (by decide)
      obtain ⟨more, hmore, hlater⟩ : ∃ more, front = path ++ more ∧
          (splitPath rest).2 = more ++ side.symbol :: back := by
        rcases List.append_eq_append_iff.1 hsplit with ⟨x, hx, hlater⟩ | ⟨x, hx, hlater⟩
        · exact ⟨x, hx, hlater⟩
        · cases x with
          | nil => exact ⟨[], by simpa using hx.symm, by simpa using hlater.symm⟩
          | cons e x =>
            obtain ⟨rfl, -⟩ := List.cons.inj hlater
            exact absurd (by simp [hx]) hsymbol
      obtain ⟨found, text', hmem⟩ := ih (offset + Text.size (c :: path)) hlater
      refine ⟨found, text', List.mem_cons_of_mem _ ?_⟩
      simpa only [hmore, Text.size_cons, Text.size_append, Nat.add_assoc] using hmem
  | case3 c rest hother ih =>
    intro front offset htext
    cases front with
    | nil =>
      obtain ⟨rfl, rfl⟩ := List.cons.inj htext
      exact absurd hback (hother side hside)
    | cons d front =>
      obtain ⟨rfl, hrest⟩ := List.cons.inj htext
      obtain ⟨found, text', hmem⟩ := ih (offset + Text.size [c]) hrest
      refine ⟨found, text', ?_⟩
      show _ ∈ placedReferences (offset + Text.size [c]) (paths rest)
      simpa only [Text.size_cons, Text.size_nil, Nat.add_assoc, Nat.add_zero] using hmem

end Template

end Assertions
