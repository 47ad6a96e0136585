import Assertions.Proofs.LooseBlanks
import Mathlib.Order.Bounds.Basic

/-!
# Literals by counting quotes

`findOutside?` reads from the left and switches at each quote, `isWithin` counts the quotes behind a
position. The first of them finds the first place with an even number of quotes in front of it,
whatever comes later (`findOutside?_eq_some_iff`). If the quotes of the whole text are even in
number the quotes in front of a character and those behind it are both even or both odd, and then
the two tell the same places apart (`isOutside_iff`).
-/

namespace Assertions.Literal

/-- Whether a character stands at a position, behind an even number of quotes. -/
def IsOutside (target : Char) (text : Text) (position : Nat) : Prop :=
  ∃ before after, text = before ++ target :: after ∧ Text.size before = position ∧
    before.count Symbol.quote % 2 = 0

variable {target : Char} {quoted : Bool} {text before after : Text} {position : Nat}

/-! ### Quotes behind a position -/

theorem quotesFrom_zero (text : Text) : quotesFrom 0 text = text.count Symbol.quote := by
  induction text with
  | nil => rfl
  | cons c rest ih =>
    rw [quotesFrom, Nat.zero_sub, ih, List.count_cons, Nat.add_comm]
    simp

/-- Quotes in front of a position are not counted. -/
theorem quotesFrom_append (before text : Text) (k : Nat) :
    quotesFrom (Text.size before + k) (before ++ text) = quotesFrom k text := by
  induction before with
  | nil => rw [List.nil_append, Text.size_nil, Nat.zero_add]
  | cons c rest ih =>
    have hpos : 0 < c.utf8Size := c.utf8Size_pos
    have hne : (c.utf8Size + Text.size rest + k == 0) = false := by
      rw [beq_eq_false_iff_ne]
      omega
    have hrest : c.utf8Size + Text.size rest + k - c.utf8Size = Text.size rest + k := by omega
    rw [List.cons_append, Text.size_cons, quotesFrom, hne, Bool.and_false, hrest, ih]
    simp

/-- Whether a character is within a literal depends on the quotes behind it. -/
theorem isWithin_append (before : Text) (c : Char) (after : Text) :
    isWithin (before ++ c :: after) (Text.size before) =
      (after.count Symbol.quote % 2 == 1) := by
  have hpos : 0 < c.utf8Size := c.utf8Size_pos
  have hone : 1 - c.utf8Size = 0 := by omega
  rw [isWithin, quotesFrom_append, quotesFrom, hone, quotesFrom_zero]
  simp

/-- In a text with an even number of quotes both ways to count agree. -/
theorem isOutside_iff (htarget : target ≠ Symbol.quote)
    (heven : text.count Symbol.quote % 2 = 0) :
    IsOutside target text position ↔
      StandsAt [target] position text ∧ isWithin text position = false := by
  have hparity : ∀ before after, text = before ++ target :: after →
      (before.count Symbol.quote % 2 = 0 ↔ after.count Symbol.quote % 2 ≠ 1) := by
    rintro before after rfl
    rw [List.count_append, List.count_cons_of_ne htarget] at heven
    omega
  constructor
  · rintro ⟨before, after, htext, rfl, hbefore⟩
    refine ⟨⟨before, after, by simpa using htext, rfl⟩, ?_⟩
    rw [htext, isWithin_append, beq_eq_false_iff_ne]
    exact (hparity before after htext).1 hbefore
  · rintro ⟨⟨before, after, htext, rfl⟩, hwithin⟩
    rw [List.append_assoc, List.singleton_append] at htext
    rw [htext, isWithin_append, beq_eq_false_iff_ne] at hwithin
    exact ⟨before, after, htext, rfl, (hparity before after htext).2 hwithin⟩

/-! ### The search from the left -/

/-- In front of the place that is found the character stands only inside literals. -/
theorem hides_of_splitOutside?_go (htarget : target ≠ Symbol.quote)
    (h : splitOutside?.go target quoted text = some (before, after)) :
    Hides target quoted before := by
  induction text generalizing quoted before with
  | nil => cases h
  | cons c rest ih =>
    simp only [splitOutside?.go] at h
    split at h
    · cases h
      trivial
    · rename_i hc
      simp only [Option.map_eq_some_iff, Prod.mk.injEq, Prod.exists] at h
      obtain ⟨inside, after', hrest, rfl, rfl⟩ := h
      refine ⟨?_, ih hrest⟩
      rintro rfl
      simpa [htarget] using hc

/-- If no place is found the character stands only inside literals. -/
theorem hides_of_splitOutside?_go_eq_none (htarget : target ≠ Symbol.quote)
    (h : splitOutside?.go target quoted text = none) : Hides target quoted text := by
  induction text generalizing quoted with
  | nil => trivial
  | cons c rest ih =>
    simp only [splitOutside?.go] at h
    split at h
    · cases h
    · rename_i hc
      refine ⟨?_, ih (Option.map_eq_none_iff.1 h)⟩
      rintro rfl
      simpa [htarget] using hc

/-- A character that stands only inside literals has an odd number of quotes in front of it. -/
theorem Hides.not_isOutside (h : Hides target false text) : ¬IsOutside target text position := by
  rintro ⟨before, after, rfl, -, hbefore⟩
  have hquoted : quotedThrough false before = true := (hides_append.1 h).2.1 rfl
  rw [quotedThrough_eq_false_iff.2 hbefore] at hquoted
  cases hquoted

/-- A place that is found is cut at, and the character stands nowhere outside literals before. -/
theorem exists_of_findOutside? (htarget : target ≠ Symbol.quote)
    (h : findOutside? text target = some position) :
    ∃ before after, text = before ++ target :: after ∧ Text.size before = position ∧
      Seals target before := by
  obtain ⟨⟨before, after⟩, hsplit, hposition⟩ := Option.map_eq_some_iff.1 h
  exact ⟨before, after, eq_of_splitOutside?_go hsplit, hposition,
    hides_of_splitOutside?_go htarget hsplit, quotedThrough_of_splitOutside?_go hsplit⟩

/-- **The first place.** What is found has an even number of quotes in front of it, and no place
before has. -/
theorem isLeast_of_findOutside? (htarget : target ≠ Symbol.quote)
    (h : findOutside? text target = some position) :
    IsLeast {place | IsOutside target text place} position := by
  obtain ⟨before, after, rfl, rfl, hseals⟩ := exists_of_findOutside? htarget h
  refine ⟨⟨before, after, rfl, rfl, quotedThrough_eq_false_iff.1 hseals.closed⟩, ?_⟩
  rintro place ⟨front, back, htext, rfl, hfront⟩
  by_contra hlt
  obtain ⟨more, rfl⟩ : front <+: before :=
    Text.isPrefix_of_size_le ⟨_, htext.symm⟩ (List.prefix_append _ _) (Nat.le_of_not_le hlt)
  cases more with
  | nil => exact hlt (by simp)
  | cons c more =>
    rw [List.append_assoc, List.cons_append] at htext
    obtain ⟨rfl, -⟩ := List.cons.inj (List.append_cancel_left htext)
    exact hseals.hides.not_isOutside ⟨front, more, rfl, rfl, hfront⟩

theorem findOutside?_eq_none_iff (htarget : target ≠ Symbol.quote) :
    findOutside? text target = none ↔ ∀ place, ¬IsOutside target text place := by
  constructor
  · intro h place
    exact (hides_of_splitOutside?_go_eq_none htarget (Option.map_eq_none_iff.1 h)).not_isOutside
  · intro h
    cases hfound : findOutside? text target with
    | none => rfl
    | some position => exact absurd (isLeast_of_findOutside? htarget hfound).1 (h position)

theorem findOutside?_eq_some_iff (htarget : target ≠ Symbol.quote) :
    findOutside? text target = some position ↔
      IsLeast {place | IsOutside target text place} position := by
  constructor
  · exact isLeast_of_findOutside? htarget
  · intro h
    cases hfound : findOutside? text target with
    | none => exact absurd h.1 ((findOutside?_eq_none_iff htarget).1 hfound position)
    | some found => rw [(isLeast_of_findOutside? htarget hfound).unique h]

/-- Text that comes later does not change what was found. -/
theorem findOutside?_append (htarget : target ≠ Symbol.quote)
    (h : findOutside? text target = some position) (more : Text) :
    findOutside? (text ++ more) target = some position := by
  obtain ⟨before, after, rfl, rfl, hseals⟩ := exists_of_findOutside? htarget h
  rw [List.append_assoc, List.cons_append, findOutside?, splitOutside?_of_seals htarget hseals]
  rfl

/-- **Two ways to find literals.** In a text with an even number of quotes the search from the left
finds the first place of a character that is not within a literal, counted from the end. In any text
it finds the first place with an even number of quotes in front of it, so nothing that is put behind
the text changes what was found. -/
theorem findOutside?_exact (htarget : target ≠ Symbol.quote) (text : Text) :
    (text.count Symbol.quote % 2 = 0 →
      (∀ position, findOutside? text target = some position ↔
        IsLeast {place | StandsAt [target] place text ∧ isWithin text place = false} position) ∧
      (findOutside? text target = none ↔
        ∀ place, StandsAt [target] place text → isWithin text place = true)) ∧
    (∀ position, findOutside? text target = some position ↔
      IsLeast {place | IsOutside target text place} position) ∧
    (findOutside? text target = none ↔ ∀ place, ¬IsOutside target text place) ∧
    ∀ position more, findOutside? text target = some position →
      findOutside? (text ++ more) target = some position := by
  refine ⟨fun heven => ⟨fun position => ?_, ?_⟩, fun position => findOutside?_eq_some_iff htarget,
    findOutside?_eq_none_iff htarget, fun position more h => findOutside?_append htarget h more⟩
  · simp only [← isOutside_iff htarget heven]
    exact findOutside?_eq_some_iff htarget
  · rw [findOutside?_eq_none_iff htarget]
    simp only [isOutside_iff htarget heven, not_and, Bool.not_eq_false]

/-- A separator behind a literal that has one too, and the same with a literal left open. -/
theorem findOutside?_exact_guard :
    IsLeast {place | StandsAt [':'] place ['\x27', 'é', ':', '\x27', ':', '1', ':'] ∧
      isWithin ['\x27', 'é', ':', '\x27', ':', '1', ':'] place = false} 5 ∧
    findOutside? (['\x27', 'é', ':', '\x27', ':', '1', ':'] ++ ['\x27', 'x']) ':' = some 5 := by
  have hcolon : ':' ≠ Symbol.quote := by decide
  obtain ⟨heven, -, -, hlater⟩ :=
    findOutside?_exact hcolon ['\x27', 'é', ':', '\x27', ':', '1', ':']
  have hfound : findOutside? ['\x27', 'é', ':', '\x27', ':', '1', ':'] ':' = some 5 := rfl
  exact ⟨((heven rfl).1 5).1 hfound, hlater 5 ['\x27', 'x'] hfound⟩

/-- With an odd number of quotes the two ways differ. -/
example : findOutside? [':', '\x27'] ':' = some 0 ∧ isWithin [':', '\x27'] 0 = true := by decide

end Assertions.Literal
