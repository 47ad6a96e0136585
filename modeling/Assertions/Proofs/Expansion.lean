import Assertions.Proofs.Spacing
import Assertions.Span

/-!
# Spans taken back to the source

`expandSpan` takes a span of a condensed text back to the source of that text. A span between two
characters of the condensed text marks some of them, and the span it is taken back to marks the part
of the source that they come from: condensing that part, in the literal or not in which it stands,
gives them again. Nothing but blanks is lost on the way.
-/

namespace Assertions

/-- Condensing drops only blanks. -/
theorem filter_condense_go (quoted : Bool) (text : Text) :
    (condense.go quoted text).filter (!Text.isBlank ·) = text.filter (!Text.isBlank ·) := by
  induction text generalizing quoted with
  | nil => rfl
  | cons c rest ih =>
    rw [condense.go]
    split
    · rw [List.filter_cons, List.filter_cons, ih]
    · rename_i hkept
      have hblank : Text.isBlank c = true := by
        by_cases h : Text.isBlank c = true
        · exact h
        · exact absurd (by simp [isKept, h]) hkept
      rw [ih, List.filter_cons_of_neg (by simp [hblank])]

/-! ### Both ends of a span -/

/-- The start of a span is found behind the part of the source that gives what precedes it. The
induction is on the source, of which a kept character takes one from what is to precede. -/
theorem exists_expandStart_go {source : Text} :
    ∀ {quoted : Bool} (at' kept : Nat) {before rest : Text},
      condense.go quoted source = before ++ rest →
      ∃ x y, source = x ++ y ∧ condense.go quoted x = before ∧
        expandStart.go (kept + Text.size before) quoted at' kept source = at' + Text.size x := by
  induction source with
  | nil =>
    intro quoted at' kept before rest h
    obtain ⟨rfl, rfl⟩ := List.append_eq_nil_iff.1 h.symm
    exact ⟨[], [], rfl, rfl, rfl⟩
  | cons c tail ih =>
    intro quoted at' kept before rest h
    rw [condense.go] at h
    by_cases hkept : isKept quoted c = true
    · rw [if_pos hkept] at h
      cases before with
      | nil =>
        refine ⟨[], c :: tail, rfl, rfl, ?_⟩
        simp [expandStart.go, hkept]
      | cons d before =>
        obtain ⟨rfl, htail⟩ := List.cons.inj h
        obtain ⟨x, y, rfl, hx, hgo⟩ :=
          ih (at' + c.utf8Size) (kept + c.utf8Size) htail
        refine ⟨c :: x, y, rfl, ?_, ?_⟩
        · rw [condense.go, if_pos hkept, hx]
        · have hpos : 0 < c.utf8Size := c.utf8Size_pos
          have hmore : ¬kept + (c.utf8Size + Text.size before) ≤ kept := by omega
          rw [Nat.add_assoc] at hgo
          simp only [expandStart.go, hkept, Text.size_cons, hmore, Bool.not_true, if_false,
            Bool.false_eq_true, hgo, Nat.add_assoc]
    · rw [if_neg hkept] at h
      obtain ⟨x, y, rfl, hx, hgo⟩ := ih (at' + c.utf8Size) kept h
      refine ⟨c :: x, y, rfl, ?_, ?_⟩
      · rw [condense.go, if_neg hkept, hx]
      · simp only [expandStart.go, hkept, Bool.not_false, if_true, hgo, Text.size_cons,
          Nat.add_assoc]

/-- The end of a span is found behind the part of the source that gives all up to it. -/
theorem exists_expandStop_go {source : Text} :
    ∀ {quoted : Bool} (at' kept : Nat) {before rest : Text}, before ≠ [] →
      condense.go quoted source = before ++ rest →
      ∃ x y, source = x ++ y ∧ condense.go quoted x = before ∧
        expandStop.go (kept + Text.size before) quoted at' kept source = at' + Text.size x := by
  induction source with
  | nil =>
    intro quoted at' kept before rest hne h
    exact absurd (List.append_eq_nil_iff.1 h.symm).1 hne
  | cons c tail ih =>
    intro quoted at' kept before rest hne h
    rw [condense.go] at h
    by_cases hkept : isKept quoted c = true
    · rw [if_pos hkept] at h
      cases before with
      | nil => exact absurd rfl hne
      | cons d before =>
        obtain ⟨rfl, htail⟩ := List.cons.inj h
        by_cases hbefore : before = []
        · subst hbefore
          refine ⟨[c], tail, rfl, ?_, ?_⟩
          · rw [condense.go, if_pos hkept]
            rfl
          · simp [expandStop.go, hkept]
        · obtain ⟨x, y, rfl, hx, hgo⟩ :=
            ih (at' + c.utf8Size) (kept + c.utf8Size) hbefore htail
          refine ⟨c :: x, y, rfl, ?_, ?_⟩
          · rw [condense.go, if_pos hkept, hx]
          · have hpos := Text.size_pos hbefore
            have hmore : ¬kept + (c.utf8Size + Text.size before) ≤ kept + c.utf8Size := by omega
            rw [Nat.add_assoc] at hgo
            simp only [expandStop.go, hkept, Text.size_cons, hmore, Bool.not_true, if_false,
              Bool.false_eq_true, hgo, Nat.add_assoc]
    · rw [if_neg hkept] at h
      obtain ⟨x, y, rfl, hx, hgo⟩ := ih (at' + c.utf8Size) kept hne h
      refine ⟨c :: x, y, rfl, ?_, ?_⟩
      · rw [condense.go, if_neg hkept, hx]
      · simp only [expandStop.go, hkept, Bool.not_false, if_true, hgo, Text.size_cons,
          Nat.add_assoc]

/-! ### Spans -/

/-- Of two beginnings of a source, the one that gives more is the longer one. -/
theorem isPrefix_of_condense_go {quoted : Bool} {source x x' before marked : Text}
    (hx : x <+: source) (hx' : x' <+: source) (hbefore : condense.go quoted x = before)
    (hbefore' : condense.go quoted x' = before ++ marked) (hmarked : marked ≠ []) : x <+: x' := by
  rcases List.prefix_or_prefix_of_prefix hx hx' with hle | ⟨w, rfl⟩
  · exact hle
  · rw [condense_go_append, hbefore'] at hbefore
    have hlength := congrArg List.length hbefore
    simp only [List.length_append] at hlength
    exact absurd (List.length_eq_zero_iff.1 (by omega)) hmarked

/-- **Spans taken back.** A span of a condensed text is taken back to the span of a part of the
source, and condensing this part gives what the span marks. -/
theorem exists_of_expandSpan {source before marked after : Text}
    (h : condense source = before ++ marked ++ after) :
    ∃ x y z, source = x ++ y ++ z ∧ condense.go (quotedThrough false x) y = marked ∧
      expandSpan source ⟨Text.size before, Text.size before + Text.size marked⟩ =
        ⟨Text.size x, Text.size x + Text.size y⟩ := by
  obtain ⟨x, rest, hx, hxbefore, hstart⟩ :=
    exists_expandStart_go 0 0 (h.trans (List.append_assoc _ _ _))
  rw [Nat.zero_add, Nat.zero_add] at hstart
  have hstart' : expandStart source (Text.size before) = Text.size x := hstart
  by_cases hmarked : marked = []
  · subst hmarked
    refine ⟨x, [], rest, by simpa using hx, rfl, ?_⟩
    simp [expandSpan, Span.isEmpty, hstart']
  · obtain ⟨x', rest', hx', hx'before, hstop⟩ :=
      exists_expandStop_go 0 0 (show before ++ marked ≠ [] by simp [hmarked]) h
    rw [Nat.zero_add, Nat.zero_add, Text.size_append] at hstop
    have hstop' : expandStop source (Text.size before + Text.size marked) = Text.size x' := hstop
    obtain ⟨y, rfl⟩ : x <+: x' :=
      isPrefix_of_condense_go ⟨rest, hx.symm⟩ ⟨rest', hx'.symm⟩ hxbefore hx'before hmarked
    rw [condense_go_append, hxbefore] at hx'before
    have hy := List.append_cancel_left hx'before
    refine ⟨x, y, rest', hx', hy, ?_⟩
    have hpos := Text.size_pos hmarked
    have hempty : ¬Text.size before + Text.size marked ≤ Text.size before := by omega
    simp [expandSpan, Span.isEmpty, hstart', hstop', hempty]

end Assertions
