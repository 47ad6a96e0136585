import Assertions.Proofs.Rendering

/-!
# Places of references

The references of a template lie in it from left to right, and none of them is empty: a path has its
symbol, and a name at least one character. Each has the span at which its text stands. So a message
is put together by cuts between characters of the template only, and in a world in which there is
nothing to show it is the template.
-/

namespace Assertions.Template

/-- Whether references lie in a template from left to right and apart from each other, and have the
spans of their texts, which are not empty. -/
structure WellPlaced (template : Text) (found : List (Span × Reference)) : Prop where
  ordered : found.Pairwise fun a b => a.1.start < b.1.start ∧ a.1.stop ≤ b.1.start
  start_lt : ∀ placed ∈ found, placed.1.start < placed.1.stop
  stop_le : ∀ placed ∈ found, placed.1.stop ≤ Text.size template
  text?_eq : ∀ placed ∈ found, placed.1.text? template = some placed.2.text

variable {names : Text → Bool} {functions : Repertoire} {world : World} {template : Text}
  {found : List (Span × Reference)}

/-- References that are not empty lie behind each other. The bound on the rest of the pieces carries
the induction. -/
theorem pairwise_placedReferences {list : List Piece}
    (h : ∀ r, .reference r ∈ list → r.text ≠ []) :
    ∀ offset, (placedReferences offset list).Pairwise fun a b =>
      a.1.start < b.1.start ∧ a.1.stop ≤ b.1.start := by
  induction list with
  | nil => exact fun _ => .nil
  | cons piece others ih =>
    intro offset
    have hothers := ih fun r hr => h r (List.mem_cons_of_mem piece hr)
    cases piece with
    | plain text => exact hothers _
    | reference r =>
      have hpos := Text.size_pos (h r List.mem_cons_self)
      refine List.pairwise_cons.2 ⟨?_, hothers _⟩
      intro placed hplaced
      have hbehind := (placedReferences_bounds hplaced).1
      show offset < placed.1.start ∧ offset + Text.size r.text ≤ placed.1.start
      omega

/-- A reference has the span at which its text stands in the template. -/
theorem standsAt_of_mem_references {span : Span} {r : Reference}
    (h : references names template = .ok found) (hr : (span, r) ∈ found) :
    ∃ start, span = ⟨start, start + Text.size r.text⟩ ∧ StandsAt r.text start template := by
  obtain ⟨pieces, hread, rfl⟩ := exists_pieces_of_references h
  obtain ⟨start, rfl, hstands⟩ := standsAt_of_mem_placedReferences hr
  rw [text_read hread] at hstands
  rw [Nat.zero_add]
  exact ⟨start, rfl, hstands⟩

/-- What is found in a template is well placed in it. -/
theorem wellPlaced_of_references (h : references names template = .ok found) :
    WellPlaced template found where
  ordered := by
    obtain ⟨pieces, hread, rfl⟩ := exists_pieces_of_references h
    apply pairwise_placedReferences
    intro r hr
    exact (isSpelled_of_mem_readSegments hread hr).text_ne_nil
  start_lt := by
    rintro ⟨span, r⟩ hplaced
    have hpos := Text.size_pos (isSpelled_of_mem_references h hplaced).text_ne_nil
    obtain ⟨start, rfl, -⟩ := standsAt_of_mem_references h hplaced
    show start < start + Text.size r.text
    omega
  stop_le := by
    rintro ⟨span, r⟩ hplaced
    obtain ⟨start, rfl, hstands⟩ := standsAt_of_mem_references h hplaced
    exact hstands.stop_le
  text?_eq := by
    rintro ⟨span, r⟩ hplaced
    obtain ⟨start, rfl, hstands⟩ := standsAt_of_mem_references h hplaced
    exact hstands.text?

/-! ### Putting a message together -/

/-- After the rounds the parts of the message can be cut out of the template. -/
theorem exists_splice?_of_evaluateSlots {slots : List Slot}
    (h : references functions.contains template = .ok found)
    (hslots : (evaluateSlots functions world (found.map (lookedUp world))).value = .ok slots) :
    ∃ output, splice? template 0 slots = some output ∧
      (render functions world template).value = .ok output := by
  obtain ⟨-, rfl⟩ := (evaluateSlots_eq_ok_iff fun placed hplaced =>
    agrees_of_mem_references h hplaced).1 hslots
  obtain ⟨output, hreplaced⟩ := exists_replaced_of_references (shownText functions world) h
  have hsplice : splice? template 0 (found.map (filled functions world)) = some output :=
    hreplaced.splice?_eq [] rfl
  refine ⟨output, hsplice, ?_⟩
  rw [render_value_of_references h, hslots, Except.map, hsplice]
  rfl

/-! ### Templates without anything to show -/

/-- Without names a word has only paths in it. -/
theorem readWord_of_unknown (hnames : ∀ name, names name = false) (offset : Nat) (word : Text) :
    readWord names offset word = .ok (paths word) := by
  unfold readWord
  dsimp only
  rw [hnames, Bool.and_false]
  rfl

theorem exists_readSegments_of_unknown (hnames : ∀ name, names name = false)
    (list : List Segment) : ∀ offset, ∃ pieces, readSegments names offset list = .ok pieces := by
  induction list with
  | nil => exact fun _ => ⟨[], rfl⟩
  | cons segment others ih =>
    intro offset
    obtain ⟨more, hmore⟩ := ih (offset + Text.size segment.text)
    have hhere : ∃ here, readSegment names offset segment = .ok here := by
      cases segment with
      | gap c => exact ⟨_, rfl⟩
      | word text => exact ⟨_, readWord_of_unknown hnames offset text⟩
    obtain ⟨here, hhere⟩ := hhere
    exact ⟨here ++ more, readSegments_cons_eq_ok.2 ⟨here, more, hhere, hmore, rfl⟩⟩

/-- Where all references show their own texts the output is the text itself. -/
theorem Replaced.eq_of_forall {shown : Text → Text} {offset : Nat} {text output : Text}
    (h : Replaced shown offset text found output)
    (hshown : ∀ placed ∈ found, shown placed.2.text = placed.2.text) : output = text := by
  induction h with
  | nil => rfl
  | cons before hrest ih =>
    obtain ⟨hfirst, hothers⟩ := List.forall_mem_cons.1 hshown
    rw [hfirst, ih hothers]

/-- Without names every reference is a path, as a name or a call would be known. -/
theorem exists_path_of_unknown (hnames : ∀ name, names name = false) {r : Reference}
    (h : r.IsSpelled names) :
    ∃ side path, Expr.ofText names r.text = .ok (.ref ⟨0, Text.size r.text⟩ side path) := by
  cases h with
  | path side hpath => exact ⟨side, _, ofText_path side hpath⟩
  | statement hname hknown | call hname hknown =>
    rw [hnames] at hknown
    cases hknown

/-- Where no name is known and every look-up is missing the message is the template. -/
theorem render_of_missing (hnames : ∀ name, functions.contains name = false)
    (hworld : ∀ side path, world.lookup side path = .missing) :
    (render functions world template).value = .ok template := by
  obtain ⟨pieces, hread⟩ :=
    exists_readSegments_of_unknown hnames (segments [] template) 0
  have hfound : references functions.contains template = .ok (placedReferences 0 pieces) := by
    rw [references, read, hread]
  have hpath : ∀ placed ∈ placedReferences 0 pieces, ∃ side path,
      Expr.ofText functions.contains placed.2.text =
        .ok (.ref ⟨0, Text.size placed.2.text⟩ side path) := fun placed hplaced =>
    exists_path_of_unknown hnames (isSpelled_of_mem_references hfound hplaced)
  have hshown : ∀ placed ∈ placedReferences 0 pieces,
      shownText functions world placed.2.text = placed.2.text := by
    intro placed hplaced
    obtain ⟨side, path, hread⟩ := hpath placed hplaced
    rw [shownText, hread]
    show (if (world.lookup side path).isMissing then _ else (world.lookup side path).toText) = _
    rw [hworld]
    rfl
  obtain ⟨output, hreplaced⟩ :=
    exists_replaced_of_references (shownText functions world) hfound
  rw [hreplaced.eq_of_forall hshown] at hreplaced
  refine render_value_eq_ok_iff.2 ⟨_, hfound, ?_, hreplaced⟩
  intro placed hplaced
  obtain ⟨side, path, hread⟩ := hpath placed hplaced
  exact ⟨_, hread⟩

/-- **Places of references.** What is found in a template lies in it from left to right, and each
reference has the span of its text between two characters of the template. Once the rounds are
through, no cut into the template fails. Where no name is known and every look-up is missing the
message is the template. -/
theorem wellPlaced_references (template : Text) :
    (∀ names found, references names template = .ok found → WellPlaced template found) ∧
    (∀ functions world found slots, references functions.contains template = .ok found →
      (evaluateSlots functions world (found.map (lookedUp world))).value = .ok slots →
      ∃ output, splice? template 0 slots = some output ∧
        (render functions world template).value = .ok output) ∧
    ∀ functions world, (∀ name, functions.contains name = false) →
      (∀ side path, world.lookup side path = .missing) →
      (render functions world template).value = .ok template := by
  refine ⟨?_, ?_, ?_⟩
  · intro names found h
    exact wellPlaced_of_references h
  · intro functions world found slots h hslots
    exact exists_splice?_of_evaluateSlots h hslots
  · intro functions world hnames hworld
    exact render_of_missing hnames hworld

/-- A call with blanks in it and a name, behind a blank of several bytes. -/
theorem wellPlaced_call_and_name :
    references (· == ['f']) ['\u3000', 'f', '(', ' ', 'é', ')', ',', ' ', 'f', '.'] =
      .ok [(⟨3, 9⟩, ⟨.call, ['f', '(', ' ', 'é', ')']⟩), (⟨11, 12⟩, ⟨.statement ['f'], ['f']⟩)] ∧
    WellPlaced ['\u3000', 'f', '(', ' ', 'é', ')', ',', ' ', 'f', '.']
      [(⟨3, 9⟩, ⟨.call, ['f', '(', ' ', 'é', ')']⟩), (⟨11, 12⟩, ⟨.statement ['f'], ['f']⟩)] := by
  have hfound : references (· == ['f']) ['\u3000', 'f', '(', ' ', 'é', ')', ',', ' ', 'f', '.'] =
      .ok [(⟨3, 9⟩, ⟨.call, ['f', '(', ' ', 'é', ')']⟩),
        (⟨11, 12⟩, ⟨.statement ['f'], ['f']⟩)] := rfl
  exact ⟨hfound, (wellPlaced_references _).1 _ _ hfound⟩

end Assertions.Template
