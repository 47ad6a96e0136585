import Assertions.Proofs.ClosingBrackets

/-!
# Calls around a position

`isWithinCall` goes to the left and looks at one bracket only, the nearest that opens a call and is
not closed on the way. In a text without literals nothing is lost by that. The walk counts the
brackets that close more than the text it has passed opens (`Closes`), so the brackets that it goes
past are closed in front of the position. And if a bracket farther out is closed behind the
position, so is every bracket inside it that is still open there (`closesAfter_of_outer`).

So a position is within a call if any call around it is closed behind it (`isWithinCall_exact`).
-/

namespace Assertions

open Nesting

variable {text front segment before after rest : Text} {c : Char} {index start : Nat}

/-! ### Positions inside a text -/

/-- A position inside a text lies on one of its characters. -/
theorem Text.exists_of_lt_size (h : index < Text.size text) :
    ∃ front c rest, text = front ++ c :: rest ∧ Text.size front ≤ index ∧
      index < Text.size front + c.utf8Size := by
  induction text generalizing index with
  | nil => exact absurd h (Nat.not_lt_zero index)
  | cons d tail ih =>
    rw [Text.size_cons] at h
    by_cases hlt : index < d.utf8Size
    · exact ⟨[], d, tail, rfl, Nat.zero_le index, by simpa using hlt⟩
    · obtain ⟨front, c, rest, rfl, hle, hindex⟩ :=
        ih (show index - d.utf8Size < Text.size tail by omega)
      refine ⟨d :: front, c, rest, rfl, ?_, ?_⟩
      · rw [Text.size_cons]
        omega
      · rw [Text.size_cons]
        omega

/-- Of a character that a position lies in, the start is before that position. -/
theorem splitBefore_inside (hlt : Text.size front < index)
    (hle : index ≤ Text.size front + c.utf8Size) :
    Text.splitBefore index (front ++ c :: rest) = (c :: front.reverse, rest) := by
  have hgo : ∀ (at' : Nat) (before : Text), at' + Text.size front < index →
      index ≤ at' + Text.size front + c.utf8Size →
      Text.splitBefore.go index at' before (front ++ c :: rest) =
        (c :: front.reverse ++ before, rest) := by
    clear hlt hle
    induction front with
    | nil =>
      intro at' before hlt hle
      rw [Text.size_nil, Nat.add_zero] at hlt hle
      rw [List.nil_append, Text.splitBefore.go, if_pos hlt]
      cases rest with
      | nil => rfl
      | cons d tail =>
        rw [Text.splitBefore.go, if_neg (Nat.not_lt.2 hle)]
        rfl
    | cons d front ih =>
      intro at' before hlt hle
      rw [Text.size_cons, ← Nat.add_assoc] at hlt hle
      rw [List.cons_append, Text.splitBefore.go, if_pos (by omega), ih _ _ hlt hle]
      simp
  simpa [Text.splitBefore] using hgo 0 [] (by simpa using hlt) (by simpa using hle)

/-- The walk starts in front of the character that the position lies on. -/
theorem isWithinCall_eq_walk (hopen : c ≠ Symbol.openBracket) (hclose : c ≠ Symbol.closeBracket)
    (hle : Text.size front ≤ index) (hlt : index < Text.size front + c.utf8Size) :
    isWithinCall (front ++ c :: rest) index =
      isWithinCallFrom index 0 front.reverse (c :: rest) := by
  rcases Nat.eq_or_lt_of_le hle with rfl | hinside
  · exact isWithinCall_append front (c :: rest)
  · rw [isWithinCall, splitBefore_inside hinside (Nat.le_of_lt hlt)]
    exact walk_other hopen hclose

/-! ### Brackets that a text closes -/

/-- Whether a text closes `n` brackets that it does not open: none closes too much in it exactly if
that many are open in front of it. -/
def Closes (n : Nat) (text : Text) : Prop :=
  ∀ depth, Shields Symbol.closeBracket ⟨depth, false⟩ text ↔ n ≤ depth

namespace Closes

variable {n : Nat}

theorem nil : Closes 0 [] := fun depth => ⟨fun _ => Nat.zero_le depth, fun _ => trivial⟩

theorem closeBracket (h : Closes n text) : Closes (n + 1) (Symbol.closeBracket :: text) := by
  intro depth
  cases depth with
  | zero =>
    constructor
    · exact fun hshields => absurd ⟨rfl, rfl⟩ hshields.1
    · exact fun hle => absurd hle (Nat.not_succ_le_zero n)
  | succ depth =>
    have hinner : ¬(Symbol.closeBracket = Symbol.closeBracket ∧
        isOutermost ⟨depth + 1, false⟩ = true) := by simp [isOutermost]
    rw [Shields, and_iff_right hinner, step_closeBracket rfl]
    exact (h depth).trans (Nat.add_le_add_iff_right).symm

theorem openBracket (h : Closes n text) : Closes (n - 1) (Symbol.openBracket :: text) := by
  intro depth
  have hpass : ¬(Symbol.openBracket = Symbol.closeBracket ∧
      isOutermost ⟨depth, false⟩ = true) := fun heq => absurd heq.1 (by decide)
  rw [Shields, and_iff_right hpass, step_openBracket rfl]
  exact (h (depth + 1)).trans (Nat.sub_le_iff_le_add).symm

theorem passive (h : Closes n text) (hc : IsPassive c) : Closes n (c :: text) := by
  intro depth
  rw [Shields, and_iff_right fun heq => hc.2.2 heq.1, step_passive hc]
  exact h depth

end Closes

/-! ### Brackets that are closed behind a position -/

/-- A bracket is closed behind a position if nothing closes it in front of the position and
something does from there on. -/
theorem closesAfter_iff (hc : c ≠ Symbol.closeBracket) (hle : start + Text.size segment ≤ index)
    (hlt : index < start + Text.size segment + c.utf8Size) :
    closesAfter index start (segment ++ c :: rest) = true ↔
      Shields Symbol.closeBracket outermost segment ∧
        (enclosed?.go (outermost.after segment) (c :: rest)).isSome = true := by
  by_cases hshields : Shields Symbol.closeBracket outermost segment
  · rw [and_iff_right hshields]
    refine ⟨fun hcloses => ?_, closesAfter_of_shields hc hlt hshields⟩
    rw [closesAfter, enclosed?, enclosed?_go_append hshields] at hcloses
    cases hfound : enclosed?.go (outermost.after segment) (c :: rest) with
    | none =>
      rw [hfound] at hcloses
      cases hcloses
    | some found => rfl
  · refine iff_of_false ?_ fun h => hshields h.1
    cases hfound : enclosed? segment with
    | none => exact absurd (shields_of_enclosed?_go_eq_none hfound) hshields
    | some found =>
      obtain ⟨inside, later⟩ := found
      have hsegment := eq_of_enclosed? hfound
      have hwhole : enclosed? (segment ++ c :: rest) = some (inside, later ++ c :: rest) := by
        rw [hsegment, List.append_assoc]
        exact enclosed?_of_balanced (balanced_of_enclosed? hfound) _
      have hsize : Text.size inside < Text.size segment := by
        have hpos : 0 < Symbol.closeBracket.utf8Size := Symbol.closeBracket.utf8Size_pos
        rw [hsegment, Text.size_append, Text.size_cons]
        omega
      rw [closesAfter, hwhole]
      show ¬decide (index < start + Text.size inside) = true
      rw [decide_eq_true_iff]
      omega

/-- **Brackets farther out.** If a bracket is closed behind a position, so is a bracket inside it
that is not closed in front of the position. -/
theorem closesAfter_of_outer {passed : Text} {outer : Nat} (hc : c ≠ Symbol.closeBracket)
    (hquote : Symbol.quote ∉ passed) (hstart : start = outer + Text.size passed + 1)
    (hle : start + Text.size segment ≤ index)
    (hlt : index < start + Text.size segment + c.utf8Size)
    (hshields : Shields Symbol.closeBracket outermost segment)
    (h : closesAfter index outer (passed ++ Symbol.openBracket :: (segment ++ c :: rest)) = true) :
    closesAfter index start (segment ++ c :: rest) = true := by
  have hsize : outer + Text.size (passed ++ Symbol.openBracket :: segment) =
      start + Text.size segment := by
    have hopen : Symbol.openBracket.utf8Size = 1 := rfl
    rw [hstart, Text.size_append, Text.size_cons, hopen]
    omega
  have hnone : Symbol.quote ∉ passed ++ [Symbol.openBracket] := by
    rw [List.mem_append, not_or]
    exact ⟨hquote, by decide⟩
  have hquoted : (outermost.after (passed ++ [Symbol.openBracket])).quoted = false :=
    (quoted_after outermost _).trans (quotedThrough_eq_of_not_mem hnone)
  have hdeeper : AtMost outermost (outermost.after (passed ++ [Symbol.openBracket])) :=
    ⟨hquoted.symm, Nat.zero_le _⟩
  rw [← List.cons_append, ← List.append_assoc] at h
  obtain ⟨-, hsome⟩ := (closesAfter_iff hc (hsize ▸ hle) (hsize ▸ hlt)).1 h
  rw [← List.singleton_append, ← List.append_assoc, after_append] at hsome
  exact (closesAfter_iff hc hle hlt).2
    ⟨hshields, (hdeeper.after segment).isSome_enclosed?_go hsome⟩

/-! ### The walk -/

/-- Whether one of the brackets in `before` opens a call and is closed behind a position. `before`
is the text to the left, nearest character first, and `after` the text from there on. -/
def HasCallAround (index : Nat) (before after : Text) : Prop :=
  ∃ passed outer, before = passed ++ Symbol.openBracket :: outer ∧ followsWord outer = true ∧
    closesAfter index (Text.size outer + 1) (passed.reverse ++ after) = true

theorem not_hasCallAround_nil : ¬HasCallAround index [] after := by
  rintro ⟨passed, outer, h, -⟩
  cases passed <;> cases h

/-- A call around a position opens with the nearest character or farther out. -/
theorem hasCallAround_cons_iff :
    HasCallAround index (c :: before) after ↔
      (c = Symbol.openBracket ∧ followsWord before = true ∧
        closesAfter index (Text.size before + 1) after = true) ∨
      HasCallAround index before (c :: after) := by
  constructor
  · rintro ⟨passed, outer, heq, hword, hcloses⟩
    cases passed with
    | nil =>
      obtain ⟨rfl, rfl⟩ := List.cons.inj heq
      exact .inl ⟨rfl, hword, hcloses⟩
    | cons d passed =>
      obtain ⟨rfl, rfl⟩ := List.cons.inj heq
      exact .inr ⟨passed, outer, rfl, hword, by simpa using hcloses⟩
  · rintro (⟨rfl, hword, hcloses⟩ | ⟨passed, outer, rfl, hword, hcloses⟩)
    · exact ⟨[], before, rfl, hword, hcloses⟩
    · exact ⟨c :: passed, outer, rfl, hword, by simpa using hcloses⟩

/-- **The walk.** It finds out whether there is a call around the position. `segment` is what it has
passed, and the invariant is that `closed` counts what closes too much in there. -/
theorem isWithinCallFrom_iff (hc : c ≠ Symbol.closeBracket) :
    ∀ (before segment : Text) (closed : Nat), Symbol.quote ∉ before → Closes closed segment →
      Text.size before + Text.size segment ≤ index →
      index < Text.size before + Text.size segment + c.utf8Size →
      (isWithinCallFrom index closed before (segment ++ c :: rest) = true ↔
        HasCallAround index before (segment ++ c :: rest)) := by
  intro before
  induction before with
  | nil =>
    intro segment closed _ _ _ _
    refine iff_of_false ?_ not_hasCallAround_nil
    cases closed <;> exact Bool.false_ne_true
  | cons b before ih =>
    intro segment closed hquote hcloses hle hlt
    simp only [List.mem_cons, not_or] at hquote
    have hsize : Text.size (b :: before) + Text.size segment =
        Text.size before + Text.size (b :: segment) := by
      simp only [Text.size_cons]
      omega
    rw [hsize] at hle hlt
    have hnext := fun closed hcloses => ih (b :: segment) closed hquote.2 hcloses hle hlt
    rw [hasCallAround_cons_iff]
    by_cases hclose : b = Symbol.closeBracket
    · subst hclose
      rw [walk_closeBracket, or_iff_right fun h => absurd h.1 (by decide)]
      exact hnext (closed + 1) hcloses.closeBracket
    by_cases hopen : b = Symbol.openBracket
    · subst hopen
      have hopenSize : Symbol.openBracket.utf8Size = 1 := rfl
      rw [Text.size_cons, hopenSize] at hle hlt
      cases closed with
      | succ closed =>
        -- This bracket is closed in what was passed, so it is no call around the position.
        rw [walk_openBracket_succ, or_iff_right]
        · exact hnext closed hcloses.openBracket
        · rintro ⟨-, -, hcall⟩
          obtain ⟨hshields, -⟩ := (closesAfter_iff hc (by omega) (by omega)).1 hcall
          exact absurd ((hcloses 0).1 hshields) (Nat.not_succ_le_zero closed)
      | zero =>
        rw [walk_openBracket_zero]
        split
        · rename_i hword
          refine ⟨fun hcall => .inl ⟨rfl, hword, hcall⟩, ?_⟩
          rintro (⟨-, -, hcall⟩ | ⟨passed, outer, rfl, -, hcall⟩)
          · exact hcall
          · have hpassed : Symbol.quote ∉ passed.reverse :=
              fun hmem => hquote.2 (List.mem_append_left _ (List.mem_reverse.1 hmem))
            have hstart : Text.size (passed ++ Symbol.openBracket :: outer) + 1 =
                Text.size outer + 1 + Text.size passed.reverse + 1 := by
              rw [Text.size_append, Text.size_cons, Text.size_reverse, hopenSize]
              omega
            exact closesAfter_of_outer hc hpassed hstart (by omega) (by omega)
              ((hcloses 0).2 (Nat.le_refl 0)) hcall
        · rename_i hword
          rw [or_iff_right fun h => hword h.2.1]
          exact hnext 0 hcloses.openBracket
    · rw [walk_other hopen hclose, or_iff_right fun h => hopen h.1]
      exact hnext closed (hcloses.passive ⟨Ne.symm hquote.1, hopen, hclose⟩)

/-! ### Positions of calls -/

/-- Whether an opening bracket that directly follows a word character stands at a position. -/
def OpensCall (text : Text) (start : Nat) : Prop :=
  ∃ before c rest, text = before ++ c :: Symbol.openBracket :: rest ∧ isWordChar c = true ∧
    Text.size before + c.utf8Size = start

/-- The bracket of a call stands behind a text that ends with a word. -/
theorem opensCall_iff :
    OpensCall text start ↔ ∃ outer rest, text = outer ++ Symbol.openBracket :: rest ∧
      followsWord outer.reverse = true ∧ Text.size outer = start := by
  constructor
  · rintro ⟨before, c, rest, rfl, hword, rfl⟩
    exact ⟨before ++ [c], rest, by simp, by simpa [followsWord] using hword, by simp⟩
  · rintro ⟨outer, rest, rfl, hword, rfl⟩
    rcases List.eq_nil_or_concat outer with rfl | ⟨before, c, rfl⟩
    · cases hword
    · refine ⟨before, c, rest, by simp, by simpa [followsWord] using hword, by simp⟩

theorem closesAfter_eq_true_iff {outer : Text} :
    closesAfter index (Text.size outer + 1) rest = true ↔
      ∃ close, closingBracket? (outer ++ Symbol.openBracket :: rest) (Text.size outer) =
        some close ∧ index < close := by
  rw [closingBracket?_append, closesAfter]
  cases enclosed? rest <;> simp

/-- A call that opens in front of a position opens in front of the character there. -/
theorem exists_of_opensCall (hopen : c ≠ Symbol.openBracket)
    (hindex : index < Text.size front + c.utf8Size) (hlt : start < index)
    (h : OpensCall (front ++ c :: rest) start) :
    ∃ outer passed, front = outer ++ Symbol.openBracket :: passed ∧
      followsWord outer.reverse = true ∧ Text.size outer = start := by
  obtain ⟨outer, later, htext, hword, rfl⟩ := opensCall_iff.1 h
  have hfront : front <+: front ++ c :: rest := List.prefix_append _ _
  have houter : outer <+: front ++ c :: rest := ⟨_, htext.symm⟩
  rcases Nat.lt_or_ge (Text.size outer) (Text.size front) with hless | hmore
  · obtain ⟨tail, rfl⟩ := Text.isPrefix_of_size_le houter hfront (Nat.le_of_lt hless)
    rw [List.append_assoc] at htext
    cases tail with
    | nil => exact absurd hless (by simp)
    | cons d passed =>
      obtain ⟨rfl, -⟩ := List.cons.inj (List.append_cancel_left htext)
      exact ⟨outer, passed, rfl, hword, rfl⟩
  · obtain ⟨tail, rfl⟩ := Text.isPrefix_of_size_le hfront houter hmore
    rw [List.append_assoc] at htext
    cases tail with
    | nil => exact absurd (List.cons.inj (List.append_cancel_left htext)).1 hopen
    | cons d tail =>
      obtain ⟨rfl, -⟩ := List.cons.inj (List.append_cancel_left htext)
      rw [Text.size_append, Text.size_cons] at hlt
      omega

/-- The calls that the walk looks for, by their positions. -/
theorem hasCallAround_reverse_iff (hopen : c ≠ Symbol.openBracket)
    (hle : Text.size front ≤ index) (hlt : index < Text.size front + c.utf8Size) :
    HasCallAround index front.reverse (c :: rest) ↔
      ∃ start close, OpensCall (front ++ c :: rest) start ∧ start < index ∧
        closingBracket? (front ++ c :: rest) start = some close ∧ index < close := by
  constructor
  · rintro ⟨passed, outer, hfront, hword, hcall⟩
    obtain rfl : front = outer.reverse ++ Symbol.openBracket :: passed.reverse := by
      simpa using congrArg List.reverse hfront
    rw [← Text.size_reverse] at hcall
    obtain ⟨close, hclose, hindex⟩ := closesAfter_eq_true_iff.1 hcall
    refine ⟨Text.size outer.reverse, close, ?_, ?_, by simpa using hclose, hindex⟩
    · exact opensCall_iff.2
        ⟨outer.reverse, passed.reverse ++ c :: rest, by simp, by simpa using hword, rfl⟩
    · have hpos : 0 < Symbol.openBracket.utf8Size := Symbol.openBracket.utf8Size_pos
      rw [Text.size_append, Text.size_cons] at hle
      omega
  · rintro ⟨start, close, hcall, hstart, hclose, hindex⟩
    obtain ⟨outer, passed, rfl, hword, rfl⟩ := exists_of_opensCall hopen hlt hstart hcall
    refine ⟨passed.reverse, outer.reverse, by simp, hword, ?_⟩
    rw [Text.size_reverse, List.reverse_reverse]
    rw [List.append_assoc, List.cons_append] at hclose
    exact closesAfter_eq_true_iff.2 ⟨close, hclose, hindex⟩

/-- Whether a call opens in front of a position and is not closed there. -/
structure IsUnclosedCall (text : Text) (index start : Nat) : Prop where
  opens : OpensCall text start
  lt : start < index
  not_closed : ∀ close, closingBracket? text start = some close → index < close

/-- Of two brackets, none of which is closed in front of a position, the second one is closed if the
first one is closed behind the position. -/
theorem isSome_closingBracket?_of_outer {x before middle : Text} {close : Nat}
    (hbefore : before = x ++ Symbol.openBracket :: middle) (hc : c ≠ Symbol.closeBracket)
    (hquote : Symbol.quote ∉ middle) (hle : Text.size before + 1 + Text.size segment ≤ index)
    (hlt : index < Text.size before + 1 + Text.size segment + c.utf8Size)
    (hshields : Shields Symbol.closeBracket outermost segment)
    (hclose : closingBracket? (before ++ Symbol.openBracket :: (segment ++ c :: rest))
      (Text.size x) = some close) (hindex : index < close) :
    (closingBracket? (before ++ Symbol.openBracket :: (segment ++ c :: rest))
      (Text.size before)).isSome = true := by
  have hstart : Text.size before + 1 = Text.size x + 1 + Text.size middle + 1 := by
    rw [hbefore, Text.size_append, Text.size_cons, show Symbol.openBracket.utf8Size = 1 from rfl]
    omega
  have houter : closesAfter index (Text.size x + 1)
      (middle ++ Symbol.openBracket :: (segment ++ c :: rest)) = true := by
    rw [hbefore, List.append_assoc, List.cons_append] at hclose
    exact closesAfter_eq_true_iff.2 ⟨close, hclose, hindex⟩
  obtain ⟨found, hfound, -⟩ := closesAfter_eq_true_iff.1
    (closesAfter_of_outer hc hquote hstart hle hlt hshields houter)
  rw [hfound]
  rfl

/-- **The nearest call.** If a call is closed behind a position, so is each call that opens later
and is not closed in front of the position. -/
theorem IsUnclosedCall.isSome_of_outer {outer close : Nat} (hopen : c ≠ Symbol.openBracket)
    (hc : c ≠ Symbol.closeBracket) (hquote : Symbol.quote ∉ front)
    (hle : Text.size front ≤ index) (hlt : index < Text.size front + c.utf8Size)
    (h : IsUnclosedCall (front ++ c :: rest) index start)
    (houter : OpensCall (front ++ c :: rest) outer) (hstart : outer < start)
    (hclose : closingBracket? (front ++ c :: rest) outer = some close) (hindex : index < close) :
    (closingBracket? (front ++ c :: rest) start).isSome = true := by
  have hone : Symbol.openBracket.utf8Size = 1 := rfl
  obtain ⟨x, passed, hx, -, rfl⟩ :=
    exists_of_opensCall hopen hlt (Nat.lt_trans hstart h.lt) houter
  obtain ⟨before, segment, rfl, -, rfl⟩ := exists_of_opensCall hopen hlt h.lt h.opens
  obtain ⟨middle, hbefore⟩ : x ++ [Symbol.openBracket] <+: before := by
    have hwhole : x ++ [Symbol.openBracket] <+: before ++ Symbol.openBracket :: segment :=
      ⟨passed, by simpa using hx.symm⟩
    refine Text.isPrefix_of_size_le hwhole (List.prefix_append _ _) ?_
    rw [Text.size_append, Text.size_cons, hone]
    exact hstart
  rw [List.append_assoc, List.singleton_append] at hbefore
  have hnot := h.not_closed
  rw [List.append_assoc, List.cons_append] at hnot hclose ⊢
  rw [Text.size_append, Text.size_cons, hone, ← Nat.add_assoc] at hle hlt
  have hpassed : ∀ found, closingBracket? (before ++ Symbol.openBracket :: (segment ++ c :: rest))
      (Text.size before) = some found → Text.size before + 1 + Text.size segment ≤ found :=
    fun found hfound => Nat.le_of_lt (Nat.lt_of_le_of_lt hle (hnot found hfound))
  have hmiddle : Symbol.quote ∉ middle := by
    intro hmem
    rw [← hbefore] at hquote
    exact hquote (by simp [hmem])
  exact isSome_closingBracket?_of_outer hbefore.symm hc hmiddle hle hlt (shields_of_passed hpassed)
    hclose hindex

/-- **Calls around a position.** In a text without literals a position that is none of a bracket is
within a call exactly if some call opens in front of it and is closed behind it. The nearest call
that is not closed in front of the position decides: all that are farther out change nothing, and
neither do groups and calls that are closed before. -/
theorem isWithinCall_exact (hquote : Symbol.quote ∉ text) (hindex : index < Text.size text)
    (hbracket : ∀ c rest, text.dropBytes? index = some (c :: rest) →
      c ≠ Symbol.openBracket ∧ c ≠ Symbol.closeBracket) :
    (isWithinCall text index = true ↔ ∃ start close, OpensCall text start ∧ start < index ∧
      closingBracket? text start = some close ∧ index < close) ∧
    ∀ start, IsGreatest {start | IsUnclosedCall text index start} start →
      (isWithinCall text index = true ↔ (closingBracket? text start).isSome = true) := by
  obtain ⟨front, c, rest, rfl, hle, hlt⟩ := Text.exists_of_lt_size hindex
  have hc : c ≠ Symbol.openBracket ∧ c ≠ Symbol.closeBracket := by
    rcases Nat.eq_or_lt_of_le hle with rfl | hinside
    · exact hbracket c rest (Text.dropBytes?_append front (c :: rest))
    · -- Inside a character of more than one byte there is no bracket.
      have hwide : c.utf8Size ≠ 1 := by omega
      constructor
      · rintro rfl
        exact hwide rfl
      · rintro rfl
        exact hwide rfl
  have hfront : Symbol.quote ∉ front := fun hmem => hquote (List.mem_append_left _ hmem)
  have hexact : isWithinCall (front ++ c :: rest) index = true ↔
      ∃ start close, OpensCall (front ++ c :: rest) start ∧ start < index ∧
        closingBracket? (front ++ c :: rest) start = some close ∧ index < close := by
    rw [isWithinCall_eq_walk hc.1 hc.2 hle hlt, ← hasCallAround_reverse_iff hc.1 hle hlt]
    exact isWithinCallFrom_iff hc.2 front.reverse [] 0 (by simpa using hfront) .nil
      (by simpa using hle) (by simpa using hlt)
  refine ⟨hexact, fun start hgreatest => hexact.trans ?_⟩
  obtain ⟨hcall, hlater⟩ := hgreatest
  constructor
  · rintro ⟨outer, close, houter, hbefore, hclose, hbehind⟩
    have hunclosed : IsUnclosedCall (front ++ c :: rest) index outer := by
      refine ⟨houter, hbefore, fun found hfound => ?_⟩
      rw [hclose] at hfound
      cases hfound
      exact hbehind
    rcases Nat.eq_or_lt_of_le (hlater hunclosed) with rfl | hstart
    · rw [hclose]
      rfl
    · exact hcall.isSome_of_outer hc.1 hc.2 hfront hle hlt houter hstart hclose hbehind
  · intro hsome
    obtain ⟨close, hclose⟩ := Option.isSome_iff_exists.1 hsome
    exact ⟨start, close, hcall.opens, hcall.lt, hclose, hcall.not_closed close hclose⟩

/-- A blank behind a call that is closed and a bracket that is not closed, in a group in a call. -/
theorem isWithinCall_exact_group :
    isWithinCall ['(', 'g', '(', '(', 'f', '(', '1', ')', ' ', '2', ')', ')'] 8 = true ∧
      ∃ start close,
        OpensCall ['(', 'g', '(', '(', 'f', '(', '1', ')', ' ', '2', ')', ')'] start ∧ start < 8 ∧
        closingBracket? ['(', 'g', '(', '(', 'f', '(', '1', ')', ' ', '2', ')', ')'] start =
          some close ∧ 8 < close := by
  have hwithin : isWithinCall
      ['(', 'g', '(', '(', 'f', '(', '1', ')', ' ', '2', ')', ')'] 8 = true := rfl
  refine ⟨hwithin, (isWithinCall_exact (by decide) (by decide) ?_).1.1 hwithin⟩
  rintro c rest ⟨⟩
  decide

end Assertions
