import Assertions.Proofs.Origin
import Assertions.Proofs.Printing
import Assertions.Proofs.Words

/-!
# Calls in a template

A call that can be read as an expression is found whole in a template if and only if every blank of
it, also in its literals, is within a call in the sense of `isWithinCall`. That holds for calls that
start with an identifier and have no brackets in their literals. With such a bracket it may fail,
and then the template cannot be read at all or the call is cut at a blank.
-/

namespace Assertions

/-- A call as it is written: a registered name directly in front of its bracket at the start, a
bracket at the end, and the text is read as a call. -/
structure IsWrittenCall (names : Text → Bool) (call : Text) : Prop where
  starts : ∃ name rest, names name = true ∧ call = name ++ Symbol.openBracket :: rest
  ends : call.getLast? = some Symbol.closeBracket
  isCall : ∃ span name args, Expr.ofText names call = .ok (.call span name args)

/-- The text around a call in a template: there are no brackets in it, and blanks set the call off
if there is text at all. -/
structure SetsOff (before after : Text) : Prop where
  noBrackets_before : NoBrackets before
  noBrackets_after : NoBrackets after
  isBlank_before : ∀ c, before.getLast? = some c → Text.isBlank c = true
  isBlank_after : ∀ c, after.head? = some c → Text.isBlank c = true

/-- Whether a template is read and refers to `call` as a whole, between `before` and `after`. -/
def IsReferredTo (names : Text → Bool) (before call after : Text) : Prop :=
  ∃ found, Template.references names (before ++ call ++ after) = .ok found ∧
    (⟨Text.size before, Text.size before + Text.size call⟩, ⟨.call, call⟩) ∈ found

/-- Whether every blank of a call is within a call. -/
def BlanksWithin (call : Text) : Prop :=
  ∀ x c y, call = x ++ c :: y → Text.isBlank c = true → isWithinCall call (Text.size x) = true

variable {names : Text → Bool} {before call after : Text}

/-! ### The shape of a call -/

theorem condense_call {name body : Text} (hname : isIdentifier name = true) :
    condense (name ++ Symbol.openBracket :: body ++ [Symbol.closeBracket]) =
      name ++ Symbol.openBracket :: condense body ++ [Symbol.closeBracket] := by
  have htight : Tight name := (SelfContained.of_isIdentifier hname).tight
  have hclose : ∀ quoted, condense.go quoted [Symbol.closeBracket] = [Symbol.closeBracket] := by
    decide
  rw [condense, List.append_assoc, htight]
  show name ++ Symbol.openBracket :: condense.go false (body ++ [Symbol.closeBracket]) = _
  rw [condense_go_append, hclose]
  simp [condense]

/-- A call without its loose blanks is a name and a balanced text in brackets. -/
theorem IsWrittenCall.condense_eq (h : IsWrittenCall names call) :
    ∃ name body, isIdentifier name = true ∧ names name = true ∧ Balanced body ∧
      condense call = name ++ Symbol.openBracket :: body ++ [Symbol.closeBracket] := by
  obtain ⟨span, name, args, hcall⟩ := h.isCall
  obtain ⟨p, hp, htext, hexpr⟩ := exists_phrase_of_ofText hcall
  cases p with
  | call written args =>
    cases hp.spelled with
    | call hname hknown hargs hcounts =>
      refine ⟨written, _, hname, hknown, ?_, htext.symm⟩
      rw [Phrase.texts_eq_map]
      exact balanced_joinCommas (List.forall_mem_map.2 fun arg harg =>
        (hargs arg harg).selfContained_text.balanced)
  | _ => cases hexpr

/-- The name in front of the first bracket of a call is registered, and the brackets enclose a
balanced text. -/
theorem IsWrittenCall.exists_body (h : IsWrittenCall names call) {name rest : Text}
    (hname : isIdentifier name = true) (hstarts : call = name ++ Symbol.openBracket :: rest) :
    names name = true ∧ ∃ body, Balanced body ∧
      call = name ++ Symbol.openBracket :: body ++ [Symbol.closeBracket] := by
  obtain ⟨front, hends⟩ := List.getLast?_eq_some_iff.1 h.ends
  obtain ⟨body, rfl⟩ : ∃ body, rest = body ++ [Symbol.closeBracket] := by
    rcases List.eq_nil_or_concat rest with rfl | ⟨body, last, rfl⟩
    · have hlast := (List.append_inj' (hstarts.symm.trans hends) rfl).2
      exact absurd hlast (by decide)
    · have hsplit : name ++ Symbol.openBracket :: body ++ [last] =
          front ++ [Symbol.closeBracket] := by
        rw [← hends, hstarts]
        simp
      refine ⟨body, ?_⟩
      rw [List.concat_eq_append, (List.append_inj' hsplit rfl).2]
  have htext : call = name ++ Symbol.openBracket :: body ++ [Symbol.closeBracket] := by
    rw [hstarts]
    simp
  obtain ⟨written, inside, hwritten, hknown, hinside, hcondense⟩ := h.condense_eq
  rw [htext, condense_call hname, List.append_assoc, List.append_assoc, List.cons_append,
    List.cons_append] at hcondense
  obtain ⟨htake, hdrop⟩ := takeWhile_dropWhile_append (fun _ => isWordChar_of_mem_name hname)
    (endsName_openBracket (condense body ++ [Symbol.closeBracket]))
  obtain ⟨htake', hdrop'⟩ := takeWhile_dropWhile_append
    (fun _ => isWordChar_of_mem_name hwritten)
    (endsName_openBracket (inside ++ [Symbol.closeBracket]))
  rw [hcondense, htake'] at htake
  rw [hcondense, hdrop'] at hdrop
  have hbody := (List.append_inj' (List.cons.inj hdrop).2 rfl).1
  rw [hbody] at hinside
  rw [htake] at hknown
  exact ⟨hknown, body, balanced_of_condense hinside, htext⟩

/-- A text whose loose blanks are gone starts like before if the blanks stood behind a bracket. -/
theorem exists_of_condense_go {name : Text} (hname : ∀ c ∈ name, IsMark c) :
    ∀ {text rest : Text}, condense.go false text = name ++ Symbol.openBracket :: rest →
      (∀ x c y, text = x ++ c :: y → NoBrackets x → Text.isBlank c = false) →
      ∃ more, text = name ++ Symbol.openBracket :: more := by
  induction name with
  | nil =>
    intro text rest h hblank
    cases text with
    | nil => cases h
    | cons c tail =>
      have hc := hblank [] c tail rfl ⟨List.not_mem_nil, List.not_mem_nil⟩
      have hkept : isKept false c = true := by simp [isKept, hc]
      rw [condense.go, if_pos hkept] at h
      exact ⟨tail, by rw [(List.cons.inj h).1]; rfl⟩
  | cons d name ih =>
    intro text rest h hblank
    obtain ⟨hd, hmarks⟩ := List.forall_mem_cons.1 hname
    cases text with
    | nil => cases h
    | cons c tail =>
      have hc := hblank [] c tail rfl ⟨List.not_mem_nil, List.not_mem_nil⟩
      have hkept : isKept false c = true := by simp [isKept, hc]
      rw [condense.go, if_pos hkept, List.cons_append] at h
      obtain ⟨rfl, htail⟩ := List.cons.inj h
      have hquoted : quotedAfter false c = false := by
        simp [quotedAfter, hd.ne (by decide : Symbol.quote.toNat < Symbol.dot.toNat)]
      rw [hquoted] at htail
      obtain ⟨more, rfl⟩ := ih hmarks htail fun x e y hsplit hx =>
        hblank (c :: x) e y (by rw [hsplit]; rfl)
          ⟨by simp [hx.openBracket_not_mem, hd.isPassive.2.1.symm],
            by simp [hx.closeBracket_not_mem, hd.isPassive.2.2.symm]⟩
      exact ⟨more, rfl⟩

/-- A call whose blanks are all within it starts with an identifier and a bracket. -/
theorem IsWrittenCall.exists_name (h : IsWrittenCall names call) (hwithin : BlanksWithin call) :
    ∃ name rest, isIdentifier name = true ∧ call = name ++ Symbol.openBracket :: rest := by
  obtain ⟨name, body, hname, -, -, hcondense⟩ := h.condense_eq
  rw [List.append_assoc, List.cons_append] at hcondense
  have hblanks : ∀ x c y, call = x ++ c :: y → NoBrackets x → Text.isBlank c = false := by
    intro x c y hcall hx
    rw [Bool.eq_false_iff]
    intro hblank
    have hnone : NoBrackets x.reverse :=
      ⟨by simpa using hx.openBracket_not_mem, by simpa using hx.closeBracket_not_mem⟩
    have hcalls := hwithin x c y hcall hblank
    rw [hcall, isWithinCall_append, isWithinCallFrom_of_noBrackets _ hnone] at hcalls
    cases hcalls
  obtain ⟨rest, hrest⟩ :=
    exists_of_condense_go (fun _ => isMark_of_mem_name hname) hcondense hblanks
  exact ⟨name, rest, hname, hrest⟩

/-! ### Gaps around and in a call -/

namespace SetsOff

variable (h : SetsOff before after)
include h

/-- No word ends where the call starts. -/
theorem followsWord_eq_false : followsWord before.reverse = false := by
  cases hlast : before.reverse with
  | nil => rfl
  | cons c rest =>
    have hbefore : before.getLast? = some c := by
      rw [List.getLast?_eq_head?_reverse, hlast]
      rfl
    have hblank := h.isBlank_before c hbefore
    rw [followsWord, Bool.eq_false_iff]
    intro hword
    rw [(isMark_of_isWordChar hword).not_isBlank] at hblank
    cases hblank

/-- The text before a call is cut off, whatever follows. -/
theorem segments_before (rest : Text) :
    ∃ list, Template.segments [] (before ++ rest) =
        list ++ Template.segments before.reverse rest ∧
      list.flatMap Template.Segment.text = before := by
  rcases List.eq_nil_or_concat before with heq | ⟨front, c, heq⟩
  · subst heq
    exact ⟨[], rfl, rfl⟩
  · rw [List.concat_eq_append] at heq
    subst heq
    have hblank := h.isBlank_before c (by simp)
    have hnone : NoBrackets front.reverse := by
      obtain ⟨hopen, hclose⟩ := h.noBrackets_before
      simp only [List.mem_append, not_or] at hopen hclose
      exact ⟨by simpa using hopen.1, by simpa using hclose.1⟩
    have hgap : Template.isGap front.reverse c rest = true := by
      rw [Template.isGap, hblank, isWithinCallFrom_of_noBrackets _ hnone]
      rfl
    have hapart := Template.startsApart_of_isGap hgap
    rw [← List.append_nil front.reverse] at hapart
    obtain ⟨list, hlist, htext⟩ := Template.segments_append hapart
    refine ⟨list ++ [.gap c], ?_, by simp [htext, Template.Segment.text]⟩
    rw [List.append_nil, Template.segments, if_pos hgap] at hlist
    rw [List.append_assoc, List.singleton_append, hlist]
    simp

/-- The text after a call is cut off, whatever is in front of it. -/
theorem startsApart_after (front : Text) : Template.StartsApart front after := by
  cases hafter : after with
  | nil => exact Template.startsApart_nil front
  | cons c rest =>
    have hblank := h.isBlank_after c (by rw [hafter]; rfl)
    have hclose := h.noBrackets_after.closeBracket_not_mem
    rw [hafter] at hclose
    have hwithin := isWithinCallFrom_of_not_mem hclose front [] 0
    apply Template.startsApart_of_isGap
    rw [Template.isGap, hblank]
    simpa using hwithin

/-- Whether a blank of the call is a gap does not depend on the text around the call. -/
theorem isGap_eq {x y : Text} {c : Char} (hcall : call = x ++ c :: y) :
    Template.isGap (x.reverse ++ before.reverse) c (y ++ after) =
      (Text.isBlank c && !isWithinCall call (Text.size x)) := by
  have hsize : Text.size (x.reverse ++ before.reverse) = Text.size before + Text.size x := by
    rw [Text.size_append, Text.size_reverse, Text.size_reverse, Nat.add_comm]
  have hwalk := isWithinCallFrom_append h.noBrackets_before h.followsWord_eq_false
    h.noBrackets_after.closeBracket_not_mem (Text.size x) x.reverse (c :: y) 0
  rw [List.cons_append] at hwalk
  rw [Template.isGap, hsize, hwalk, hcall, isWithinCall_append]

end SetsOff

/-! ### Calls as references -/

/-- A call whose blanks are all within it is found. -/
theorem isReferredTo_of_blanksWithin (hcall : IsWrittenCall names call)
    (hsets : SetsOff before after) (hwithin : BlanksWithin call) :
    IsReferredTo names before call after := by
  obtain ⟨name, rest, hname, hstarts⟩ := hcall.exists_name hwithin
  obtain ⟨hknown, body, hbody, htext⟩ := hcall.exists_body hname hstarts
  have hne : call ≠ [] := by
    rw [htext]
    simp
  have hgaps : ∀ x c y, call = x ++ c :: y →
      Template.isGap (x.reverse ++ before.reverse) c (y ++ after) = false := by
    intro x c y heq
    rw [hsets.isGap_eq heq]
    cases hblank : Text.isBlank c with
    | false => rfl
    | true => rw [hwithin x c y heq hblank]; rfl
  obtain ⟨list, hlist, hbefore⟩ := hsets.segments_before (call ++ after)
  have hword := Template.segments_word hne hgaps (hsets.startsApart_after _)
  obtain ⟨front, hfront⟩ : ∃ front, Template.readSegments names 0 list = .ok front :=
    Template.readSegments_of_noBrackets hbefore hsets.noBrackets_before.openBracket_not_mem 0
  obtain ⟨back, hback⟩ : ∃ back, Template.readSegments names
      (0 + Text.size before + Text.size call)
      (Template.segments (call.reverse ++ before.reverse) after) = .ok back :=
    Template.readSegments_of_noBrackets (Template.text_segments _ after)
      hsets.noBrackets_after.openBracket_not_mem _
  have hhere := Template.readWord_call hname hknown hbody (0 + Text.size before)
  rw [← htext] at hhere
  have hread : Template.read names (before ++ call ++ after) =
      .ok (front ++ ([.reference ⟨.call, call⟩, .plain []] ++ back)) := by
    rw [Template.read, List.append_assoc, hlist, hword]
    refine Template.readSegments_append_eq_ok.2 ⟨front, _, hfront, ?_, rfl⟩
    rw [hbefore]
    exact Template.readSegments_cons_eq_ok.2 ⟨_, back, hhere, hback, rfl⟩
  have hsize : front.flatMap Piece.text = before :=
    (Template.text_readSegments hfront).trans hbefore
  refine ⟨_, by rw [Template.references, hread], ?_⟩
  rw [Template.placedReferences_append, hsize, Nat.zero_add]
  exact List.mem_append_right _ List.mem_cons_self

/-- A call that is found is not cut at a blank. -/
theorem blanksWithin_of_isReferredTo (hsets : SetsOff before after)
    (h : IsReferredTo names before call after) : BlanksWithin call := by
  intro x c y hcall hblank
  rw [← Bool.not_eq_false]
  intro hnot
  obtain ⟨found, hfound, hmem⟩ := h
  have hgap : Template.isGap (x.reverse ++ before.reverse) c (y ++ after) = true := by
    rw [hsets.isGap_eq hcall, hblank]
    simpa using hnot
  have hapart := Template.startsApart_of_isGap hgap
  have hreverse : x.reverse ++ before.reverse = (before ++ x).reverse ++ [] := by simp
  rw [hreverse] at hapart
  obtain ⟨list, hlist, htext⟩ := Template.segments_append hapart
  rw [← hreverse, Template.segments, if_pos hgap] at hlist
  have hwhole : before ++ call ++ after = before ++ x ++ c :: (y ++ after) := by
    rw [hcall]
    simp
  rw [Template.references, hwhole, Template.read, hlist] at hfound
  cases hread : Template.readSegments names 0
      (list ++ .gap c :: Template.segments (c :: (x.reverse ++ before.reverse)) (y ++ after)) with
  | error fault =>
    rw [hread] at hfound
    cases hfound
  | ok pieces =>
    rw [hread] at hfound
    cases hfound
    obtain ⟨front, rest, hfront, hrest, rfl⟩ := Template.readSegments_append_eq_ok.1 hread
    obtain ⟨here, back, hhere, hback, rfl⟩ := Template.readSegments_cons_eq_ok.1 hrest
    cases hhere
    have hsize : front.flatMap Piece.text = before ++ x :=
      (Template.text_readSegments hfront).trans htext
    have hpos : 0 < c.utf8Size := c.utf8Size_pos
    have hlength : Text.size call = Text.size x + (c.utf8Size + Text.size y) := by
      rw [hcall, Text.size_append, Text.size_cons]
    -- The reference would reach over the blank, but lies on one side of it.
    rw [Template.placedReferences_append, hsize, Text.size_append] at hmem
    rcases List.mem_append.1 hmem with hleft | hright
    · have hbounds := (Template.placedReferences_bounds hleft).2
      rw [hsize, Text.size_append] at hbounds
      simp only at hbounds
      omega
    · rw [List.singleton_append, Template.placedReferences] at hright
      have hbounds := (Template.placedReferences_bounds hright).1
      simp only [Text.size_cons, Text.size_nil] at hbounds
      omega

/-- The blanks of a call stand behind its first bracket. -/
theorem exists_of_isBlank {name rest x y : Text} {c : Char} (hname : isIdentifier name = true)
    (hblank : Text.isBlank c = true) (h : name ++ Symbol.openBracket :: rest = x ++ c :: y) :
    ∃ z, x = name ++ Symbol.openBracket :: z ∧ rest = z ++ c :: y := by
  have hfront : c ∉ name ++ [Symbol.openBracket] := by
    rw [List.mem_append, List.mem_singleton]
    rintro (hmem | rfl)
    · rw [(isMark_of_mem_name hname hmem).not_isBlank] at hblank
      cases hblank
    · exact absurd hblank (by decide)
  have hsplit : (name ++ [Symbol.openBracket]) ++ rest = x ++ c :: y := by simpa using h
  rcases List.append_eq_append_iff.1 hsplit with ⟨z, rfl, hrest⟩ | ⟨z, hname', hrest⟩
  · exact ⟨z, by simp, hrest⟩
  · cases z with
    | nil =>
      rw [List.append_nil] at hname'
      refine ⟨[], ?_, hrest.symm⟩
      rw [← hname']
    | cons d others =>
      cases (List.cons.inj hrest).1
      rw [hname'] at hfront
      simp at hfront

/-- In a call without brackets in its literals every blank is within a call. -/
theorem blanksWithin_of_bracketsOutside (hcall : IsWrittenCall names call) {name rest : Text}
    (hname : isIdentifier name = true) (hstarts : call = name ++ Symbol.openBracket :: rest)
    (h : BracketsOutside false call) : BlanksWithin call := by
  obtain ⟨-, body, hbody, htext⟩ := hcall.exists_body hname hstarts
  have hfollows : followsWord name.reverse = true := by
    rcases List.eq_nil_or_concat name with rfl | ⟨front, last, rfl⟩
    · cases hname
    · rw [List.concat_eq_append] at hname ⊢
      rw [List.reverse_append]
      exact isWordChar_of_mem_name hname (by simp)
  have houtside : BracketsOutside false body := by
    rw [htext, List.append_assoc, bracketsOutside_append, quotedThrough_name hname] at h
    exact (bracketsOutside_append.1 h.2.2).1
  intro x c y hsplit hblank
  rw [htext, List.append_assoc, List.cons_append] at hsplit
  obtain ⟨z, rfl, hz⟩ := exists_of_isBlank hname hblank hsplit
  rw [htext]
  refine isWithinCall_of_bracketsOutside hfollows hbody houtside hz ?_
  rintro rfl
  exact absurd hblank (by decide)

/-- **Calls in a template.** A call that can be read as an expression is found whole in a template
exactly if each blank of it is within a call. That is so if the call starts with an identifier and
no bracket stands in a literal. -/
theorem isReferredTo_iff_blanksWithin (hcall : IsWrittenCall names call)
    (hsets : SetsOff before after) :
    (IsReferredTo names before call after ↔ BlanksWithin call) ∧
      ∀ name rest, isIdentifier name = true → call = name ++ Symbol.openBracket :: rest →
        BracketsOutside false call → IsReferredTo names before call after := by
  constructor
  · exact ⟨blanksWithin_of_isReferredTo hsets, isReferredTo_of_blanksWithin hcall hsets⟩
  · intro name rest hname hstarts houtside
    exact isReferredTo_of_blanksWithin hcall hsets
      (blanksWithin_of_bracketsOutside hcall hname hstarts houtside)

/-- A call with a blank in a literal, behind a word. -/
theorem isReferredTo_quoted_blank :
    IsReferredTo (· == ['f']) ['a', ' '] ['f', '(', '\x27', ' ', '\x27', ')'] [] := by
  have hspelled : Phrase.IsSpelled (· == ['f']) (.call ['f'] [.string [' ']]) :=
    .call rfl rfl (List.forall_mem_singleton.2 (.string (by decide) (by decide))) (by decide)
  have hordered : ((Phrase.call ['f'] [.string [' ']]).expr 0).IsOrdered := by
    intro op left right hmem
    simp [Phrase.expr, Phrase.exprs, Expr.nodes, Expr.nodesAll] at hmem
  have hcall : IsWrittenCall (· == ['f']) ['f', '(', '\x27', ' ', '\x27', ')'] :=
    ⟨⟨['f'], _, rfl, rfl⟩, rfl, _, _, _,
      Phrase.IsReadable.ofText_of_spaced ⟨hspelled, hordered, by decide, by decide⟩ (.refl _ _)⟩
  have hsets : SetsOff ['a', ' '] [] :=
    ⟨⟨by decide, by decide⟩, ⟨by decide, by decide⟩, by simp; decide, by simp⟩
  exact (isReferredTo_iff_blanksWithin hcall hsets).2 ['f'] _ rfl rfl (by decide)

/-- A closing bracket in a literal, and a blank behind it. The call can be read as an expression,
but a template that consists of it cannot be read. -/
theorem not_isReferredTo_quoted_bracket :
    IsWrittenCall (· == ['f']) ['f', '(', '\x27', ')', '\x27', ' ', ',', '1', ')'] ∧
      SetsOff [] [] ∧
      ¬IsReferredTo (· == ['f']) [] ['f', '(', '\x27', ')', '\x27', ' ', ',', '1', ')'] [] := by
  have hdigits : IsNumeral ['1'] := .singleton rfl
  have hspelled : Phrase.IsSpelled (· == ['f'])
      (.call ['f'] [.string [Symbol.closeBracket], .number none ['1']]) :=
    .call rfl rfl (List.forall_mem_cons.2 ⟨.string (by decide) (by decide),
      List.forall_mem_singleton.2 (.number none hdigits)⟩) (by decide)
  have hordered : ((Phrase.call ['f']
      [.string [Symbol.closeBracket], .number none ['1']]).expr 0).IsOrdered := by
    intro op left right hmem
    simp [Phrase.expr, Phrase.exprs, Expr.nodes, Expr.nodesAll] at hmem
  have hread := Phrase.IsReadable.ofText_of_spaced ⟨hspelled, hordered, by decide, by decide⟩
    (.keep _ (.keep _ (.keep _ (.keep _ (.keep _ (.blank ' ' rfl (.refl _ _)))))))
  refine ⟨⟨⟨['f'], _, rfl, rfl⟩, rfl, _, _, _, hread⟩, ?_, ?_⟩
  · exact ⟨⟨by decide, by decide⟩, ⟨by decide, by decide⟩, by simp, by simp⟩
  · rintro ⟨found, hfound, -⟩
    cases hfound

end Assertions
