import Assertions.Proofs.Expansion
import Assertions.Proofs.FaultSpans
import Assertions.Proofs.Placement

/-!
# Faults of messages

Rendering a template fails in one of two ways. A call is not closed in its word, and then the fault
points at its opening bracket. Or all references are found and the first call among them that cannot
be read gives its fault, which points into the text of that call. Either way the fault points into
the template, between two of its characters (`span_of_render_fault`).

A call is condensed before it is read, so what its fault marks in the template may have more blanks
in it than what it marks in the condensed call.
-/

namespace Assertions

/-- The fault of a text is taken back to a part of the source, which is an unknown name up to its
blanks if the fault is about such a name. -/
theorem exists_standsAt_of_expandSpan {names : Text → Bool} {source : Text} {fault : Fault}
    (h : Expr.ofText names source = .error fault) :
    ∃ marked start, expandSpan source fault.span = ⟨start, start + Text.size marked⟩ ∧
      StandsAt marked start source ∧
      ∀ name, fault.cause = .unknownFunction name → marked.filter (!Text.isBlank ·) = name := by
  obtain ⟨before, kept, after, htext, hspan, hdescribes⟩ := pointsInto_ofText h
  obtain ⟨x, y, z, rfl, hy, hexpand⟩ := exists_of_expandSpan htext
  rw [Nat.zero_add] at hspan
  refine ⟨y, Text.size x, ?_, ⟨x, z, rfl, rfl⟩, ?_⟩
  · rw [hspan, hexpand]
  · intro name hcause
    rw [hcause] at hdescribes
    obtain ⟨rfl, hname, -⟩ := hdescribes
    have hkept : kept.filter (!Text.isBlank ·) = kept := by
      apply List.filter_eq_self.2
      intro c hc
      simp [(isMark_of_mem_name hname hc).not_isBlank]
    rw [← filter_condense_go (quotedThrough false x) y, hy, hkept]

namespace Template

variable {names : Text → Bool} {functions : Repertoire} {world : World} {template : Text}
  {fault : Fault}

/-! ### Calls that are not closed -/

/-- Whether a fault points at the opening bracket of a call whose name starts a word. -/
def IsOpenCall (names : Text → Bool) (template : Text) (fault : Fault) : Prop :=
  ∃ before name after, template = before ++ name ++ Symbol.openBracket :: after ∧
    (before = [] ∨ ∃ a c, before = a ++ [c] ∧ Text.isBlank c = true) ∧
    names name = true ∧ fault = ⟨.openCall name,
      ⟨Text.size (before ++ name), Text.size (before ++ name) + 1⟩⟩

/-- A character that joins the first word stands in front of all that precedes another word. -/
theorem exists_of_joinWord {c : Char} {list front rest : List Segment} {word : Text}
    (h : joinWord c list = front ++ .word word :: rest) :
    front = [] ∨ ∃ others, others ≠ [] ∧ list = others ++ .word word :: rest ∧
      front.flatMap Segment.text = c :: others.flatMap Segment.text := by
  cases front with
  | nil => exact .inl rfl
  | cons segment front =>
    right
    unfold joinWord at h
    split at h
    · obtain ⟨rfl, hothers⟩ := List.cons.inj h
      rename_i text others
      exact ⟨.word text :: front, List.cons_ne_nil _ _, by rw [hothers]; rfl, rfl⟩
    · rename_i hword
      obtain ⟨rfl, hlist⟩ := List.cons.inj h
      refine ⟨front, ?_, hlist, rfl⟩
      rintro rfl
      exact hword word rest hlist

/-- What stands in front of a word ends with a blank. -/
theorem isBlank_before_word {text : Text} :
    ∀ {before : Text} {front rest : List Segment} {word : Text},
      segments before text = front ++ .word word :: rest →
      front = [] ∨ ∃ a c, front.flatMap Segment.text = a ++ [c] ∧ Text.isBlank c = true := by
  induction text with
  | nil =>
    intro before front rest word h
    cases front <;> cases h
  | cons d tail ih =>
    intro before front rest word h
    rw [segments] at h
    split at h
    · rename_i hgap
      cases front with
      | nil => cases h
      | cons segment front =>
        obtain ⟨rfl, htail⟩ := List.cons.inj h
        right
        rcases ih htail with rfl | ⟨a, c, ha, hc⟩
        · simp only [isGap, Bool.and_eq_true] at hgap
          exact ⟨[], d, rfl, hgap.1⟩
        · exact ⟨d :: a, c, by simp [Segment.text, ha], hc⟩
    · refine (exists_of_joinWord h).imp_right ?_
      rintro ⟨others, hne, htail, hfront⟩
      obtain ⟨a, c, ha, hc⟩ := (ih htail).resolve_left hne
      exact ⟨d :: a, c, by rw [hfront, ha]; rfl, hc⟩

/-- A word fails if it starts with a call that is not closed. -/
theorem eq_of_readWord_eq_error {offset : Nat} {word : Text}
    (h : readWord names offset word = .error fault) :
    ∃ name after, word = name ++ Symbol.openBracket :: after ∧ names name = true ∧
      fault = ⟨.openCall name, ⟨offset + Text.size name, offset + Text.size name + 1⟩⟩ := by
  have hword : word = word.takeWhile isWordChar ++ word.dropWhile isWordChar := by simp
  unfold readWord at h
  dsimp only at h
  split at h
  · rename_i hname
    simp only [Bool.and_eq_true] at hname
    split at h
    · cases h
    · rename_i c rest hrest
      split at h
      · rename_i hc
        split at h
        · cases h
          rw [hrest, beq_iff_eq.1 hc] at hword
          exact ⟨_, rest, hword, hname.2, rfl⟩
        · cases h
      · cases h
  · cases h

/-- Segments fail at a word. -/
theorem exists_of_readSegments_eq_error {list : List Segment} :
    ∀ {offset : Nat}, readSegments names offset list = .error fault →
      ∃ front word rest, list = front ++ .word word :: rest ∧
        readWord names (offset + Text.size (front.flatMap Segment.text)) word = .error fault := by
  induction list with
  | nil =>
    intro offset h
    cases h
  | cons segment others ih =>
    intro offset h
    rw [readSegments] at h
    cases hhere : readSegment names offset segment with
    | error first =>
      rw [hhere] at h
      cases h
      cases segment with
      | gap c => cases hhere
      | word word => exact ⟨[], word, others, rfl, hhere⟩
    | ok here =>
      cases hothers : readSegments names (offset + Text.size segment.text) others with
      | ok more =>
        rw [hhere, hothers] at h
        cases h
      | error later =>
        rw [hhere, hothers] at h
        cases h
        obtain ⟨front, word, rest, rfl, hword⟩ := ih hothers
        refine ⟨segment :: front, word, rest, rfl, ?_⟩
        rw [List.flatMap_cons, Text.size_append, ← Nat.add_assoc]
        exact hword

/-- References are not found where a call is not closed in its word. -/
theorem isOpenCall_of_references (h : references names template = .error fault) :
    IsOpenCall names template fault := by
  unfold references at h
  split at h
  · rename_i first hread
    cases h
    obtain ⟨front, word, rest, hsegments, hword⟩ := exists_of_readSegments_eq_error hread
    obtain ⟨name, after, rfl, hname, rfl⟩ := eq_of_readWord_eq_error hword
    refine ⟨front.flatMap Segment.text, name, after ++ rest.flatMap Segment.text, ?_, ?_, hname, ?_⟩
    · rw [← text_segments [] template, hsegments]
      simp [Segment.text]
    · exact (isBlank_before_word hsegments).imp_left fun hfront => by rw [hfront]; rfl
    · rw [Text.size_append, Nat.zero_add]
  · cases h

/-! ### Calls that cannot be read -/

/-- Whether a fault is that of a call, taken back to the template, and every reference in front of
that call can be read. -/
structure IsFaultOfCall (names : Text → Bool) (found : List (Span × Reference))
    (call : Span × Reference) (fault : Fault) : Prop where
  referent_eq : call.2.referent = .call
  first : ∃ front rest, found = front ++ call :: rest ∧
    ∀ placed ∈ front, ∃ e, Expr.ofText names placed.2.text = .ok e
  fault_eq : ∃ inner, Expr.ofText names call.2.text = .error inner ∧
    fault = ⟨inner.cause, (expandSpan call.2.text inner.span).shift call.1.start⟩

/-- A slot fails if it is a call that cannot be read. -/
theorem evaluateSlot_lookedUp_of_error (world : World) {placed : Span × Reference}
    {inner : Fault} (hagrees : placed.2.Agrees functions.contains)
    (hread : Expr.ofText functions.contains placed.2.text = .error inner) :
    placed.2.referent = .call ∧ evaluateSlot functions world (lookedUp world placed) =
      .error ⟨inner.cause, (expandSpan placed.2.text inner.span).shift placed.1.start⟩ := by
  obtain ⟨span, referent, text⟩ := placed
  cases referent with
  | path side path => cases hread.symm.trans hagrees
  | statement name => cases hread.symm.trans hagrees
  | call =>
    refine ⟨rfl, ?_⟩
    show evaluateSlot functions world ⟨span, ⟨.call, text⟩, none⟩ = _
    rw [evaluateSlot_call, hread]
    rfl

/-- The rounds fail at the first call that cannot be read. -/
theorem isFaultOfCall_of_evaluateSlots {found : List (Span × Reference)}
    (hagrees : ∀ placed ∈ found, placed.2.Agrees functions.contains)
    (h : (evaluateSlots functions world (found.map (lookedUp world))).value = .error fault) :
    ∃ call, IsFaultOfCall functions.contains found call fault := by
  induction found with
  | nil => cases h
  | cons placed others ih =>
    obtain ⟨hplaced, hothers⟩ := List.forall_mem_cons.1 hagrees
    cases hread : Expr.ofText functions.contains placed.2.text with
    | error inner =>
      obtain ⟨hcall, hslot⟩ := evaluateSlot_lookedUp_of_error world hplaced hread
      rw [List.map_cons, evaluateSlots, hslot] at h
      cases h
      exact ⟨placed, hcall, ⟨[], others, rfl, by simp⟩, inner, hread, rfl⟩
    | ok e =>
      obtain ⟨events, hslot⟩ := evaluateSlot_lookedUp world hplaced hread
      rw [List.map_cons, evaluateSlots, hslot] at h
      cases hvalue : (evaluateSlots functions world (others.map (lookedUp world))).value with
      | ok slots =>
        rw [Traced.value_andThen, Traced.map, hvalue] at h
        cases h
      | error later =>
        rw [Traced.value_andThen, Traced.map, hvalue] at h
        cases h
        obtain ⟨call, hcall, ⟨front, rest, rfl, hfront⟩, hinner⟩ := ih hothers hvalue
        exact ⟨call, hcall, ⟨placed :: front, rest, rfl,
          List.forall_mem_cons.2 ⟨⟨e, hread⟩, hfront⟩⟩, hinner⟩

/-! ### Faults -/

/-- A message fails where a call is not closed or cannot be read. -/
theorem render_value_eq_error (h : (render functions world template).value = .error fault) :
    references functions.contains template = .error fault ∨
      ∃ found call, references functions.contains template = .ok found ∧
        IsFaultOfCall functions.contains found call fault := by
  cases hfound : references functions.contains template with
  | error first =>
    rw [render, hfound] at h
    exact .inl (congrArg Except.error (Except.error.inj h))
  | ok found =>
    have hagrees : ∀ placed ∈ found, placed.2.Agrees functions.contains :=
      fun placed hplaced => agrees_of_mem_references hfound hplaced
    rw [render_value_of_references hfound] at h
    cases hslots : (evaluateSlots functions world (found.map (lookedUp world))).value with
    | ok slots =>
      rw [hslots] at h
      cases h
    | error first =>
      rw [hslots] at h
      cases h
      obtain ⟨call, hcall⟩ := isFaultOfCall_of_evaluateSlots hagrees hslots
      exact .inr ⟨found, call, rfl, hcall⟩

/-- **Faults of messages.** The span of a fault lies in the template, between two of its characters.
What it marks is an unknown name with blanks in it, if the fault is about such a name. If references
are not found it is the opening bracket behind the name of a call. Otherwise a call that was found
cannot be read, and the span lies in the span of that call. -/
theorem span_of_render_fault (h : (render functions world template).value = .error fault) :
    fault.span.start ≤ fault.span.stop ∧ fault.span.stop ≤ Text.size template ∧
      ∃ marked, fault.span.text? template = some marked ∧
        (∀ name, fault.cause = .unknownFunction name →
          marked.filter (!Text.isBlank ·) = name) ∧
        (references functions.contains template = .error fault ∧
            marked = [Symbol.openBracket] ∧ IsOpenCall functions.contains template fault ∨
          ∃ found call, references functions.contains template = .ok found ∧
            IsFaultOfCall functions.contains found call fault ∧
            call.1.start ≤ fault.span.start ∧ fault.span.stop ≤ call.1.stop) := by
  rcases render_value_eq_error h with hreferences | ⟨found, call, hfound, hcall⟩
  · have hopen := isOpenCall_of_references hreferences
    obtain ⟨before, name, after, htemplate, -, -, rfl⟩ := hopen
    have hstands : StandsAt [Symbol.openBracket] (Text.size (before ++ name)) template :=
      ⟨before ++ name, after, by simp [htemplate], rfl⟩
    refine ⟨Nat.le_succ _, hstands.stop_le, [Symbol.openBracket], hstands.text?, ?_, ?_⟩
    · intro name' hcause
      cases hcause
    · exact .inl ⟨hreferences, rfl, isOpenCall_of_references hreferences⟩
  · obtain ⟨span, r⟩ := call
    obtain ⟨front, rest, hsplit, -⟩ := hcall.first
    obtain ⟨inner, hinner, hfault⟩ := hcall.fault_eq
    have hmem : (span, r) ∈ found := by simp [hsplit]
    obtain ⟨outer, rfl, houter⟩ := standsAt_of_mem_references hfound hmem
    obtain ⟨marked, start, hexpand, hmarked, hname⟩ := exists_standsAt_of_expandSpan hinner
    have hstands := hmarked.trans houter
    have hspan : fault.span = ⟨outer + start, outer + start + Text.size marked⟩ := by
      rw [hfault, hexpand]
      show Span.mk (start + outer) (start + Text.size marked + outer) = _
      congr 1 <;> omega
    have hinside : start + Text.size marked ≤ Text.size r.text := hmarked.stop_le
    rw [hspan]
    refine ⟨Nat.le_add_right _ _, hstands.stop_le, marked, hstands.text?, ?_, ?_⟩
    · intro name hcause
      rw [hfault] at hcause
      exact hname name hcause
    · refine .inr ⟨found, _, hfound, hcall, Nat.le_add_right _ _, ?_⟩
      show outer + start + Text.size marked ≤ outer + Text.size r.text
      omega

/-- An unknown name with a blank of three bytes in it, in a call inside a call. -/
theorem span_of_render_fault_nested :
    ∃ functions : Repertoire,
      Repertoire.empty.register ['f'] (.statement fun _ => .missing) = .ok functions ∧
      (render functions World.empty ['\u3000', 'f', '(', 'f', '(', 'a', '\u2003', 'b', ',',
        '\x27', ' ', '\x27', ')', ')']).value = .error ⟨.unknownFunction ['a', 'b'], ⟨7, 12⟩⟩ ∧
      ∃ marked, (Span.mk 7 12).text? ['\u3000', 'f', '(', 'f', '(', 'a', '\u2003', 'b', ',',
        '\x27', ' ', '\x27', ')', ')'] = some marked ∧
        marked.filter (!Text.isBlank ·) = ['a', 'b'] := by
  have hrender : ∀ functions,
      Repertoire.empty.register ['f'] (.statement fun _ => .missing) = .ok functions →
      (render functions World.empty ['\u3000', 'f', '(', 'f', '(', 'a', '\u2003', 'b', ',',
        '\x27', ' ', '\x27', ')', ')']).value = .error ⟨.unknownFunction ['a', 'b'], ⟨7, 12⟩⟩ := by
    rintro functions ⟨⟩
    rfl
  obtain ⟨functions, hfunctions⟩ : ∃ functions,
      Repertoire.empty.register ['f'] (.statement fun _ => .missing) = .ok functions := ⟨_, rfl⟩
  have hfault := hrender functions hfunctions
  obtain ⟨-, -, marked, htext, hname, -⟩ := span_of_render_fault hfault
  exact ⟨functions, hfunctions, hfault, marked, htext, hname _ rfl⟩

end Template

end Assertions
