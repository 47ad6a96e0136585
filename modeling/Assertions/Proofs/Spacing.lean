import Assertions.Condensed

/-!
# Blanks put into a text

`Spaced quoted text spaced` says that `spaced` is `text` with any number of blanks put in, none of
them inside a literal, where `text` starts inside one or not. Condensing takes them out again
(`condense_of_spaced`). A text is `Tight` if there is nothing to take out of it, whatever follows.
-/

namespace Assertions

/-- A text, and that text with blanks put in outside its literals. -/
inductive Spaced : (quoted : Bool) → (text spaced : Text) → Prop
  | nil (quoted : Bool) : Spaced quoted [] []
  | keep (c : Char) {quoted : Bool} {text spaced : Text}
    (h : Spaced (quotedAfter quoted c) text spaced) : Spaced quoted (c :: text) (c :: spaced)
  | blank (c : Char) {text spaced : Text} (hblank : Text.isBlank c = true)
    (h : Spaced false text spaced) : Spaced false text (c :: spaced)

/-- A text without further blanks is one way to space it. -/
theorem Spaced.refl (quoted : Bool) (text : Text) : Spaced quoted text text := by
  induction text generalizing quoted with
  | nil => exact .nil quoted
  | cons c rest ih => exact .keep c (ih _)

/-- A blank is no quote. -/
theorem ne_quote_of_isBlank {c : Char} (h : Text.isBlank c = true) : c ≠ Symbol.quote := by
  intro heq
  rw [heq] at h
  exact absurd h (by decide)

/-- Blanks that were put in are gone after condensing. -/
theorem condense_go_of_spaced {quoted : Bool} {text spaced : Text}
    (h : Spaced quoted text spaced) : condense.go quoted spaced = condense.go quoted text := by
  induction h with
  | nil quoted => rfl
  | keep c _ ih => simp only [condense.go, ih]
  | blank c hblank _ ih =>
    have hafter : quotedAfter false c = false := by
      simp [quotedAfter, ne_quote_of_isBlank hblank]
    have hkept : ¬isKept false c = true := by simp [isKept, hafter, hblank]
    rw [condense.go, if_neg hkept, hafter, ih]

theorem condense_of_spaced {text spaced : Text} (h : Spaced false text spaced) :
    condense spaced = condense text :=
  condense_go_of_spaced h

/-! ### Parts of condensed texts -/

/-- Whether the end of a text lies in a literal, given whether its start does. -/
def quotedThrough (quoted : Bool) (text : Text) : Bool := text.foldl quotedAfter quoted

@[simp] theorem quotedThrough_nil (quoted : Bool) : quotedThrough quoted [] = quoted := rfl

@[simp] theorem quotedThrough_cons (quoted : Bool) (c : Char) (rest : Text) :
    quotedThrough quoted (c :: rest) = quotedThrough (quotedAfter quoted c) rest := rfl

@[simp] theorem quotedThrough_append (quoted : Bool) (a b : Text) :
    quotedThrough quoted (a ++ b) = quotedThrough (quotedThrough quoted a) b := List.foldl_append

/-- A text without quotes opens and closes no literal. -/
theorem quotedThrough_eq_of_not_mem {quoted : Bool} {text : Text} (h : Symbol.quote ∉ text) :
    quotedThrough quoted text = quoted := by
  induction text with
  | nil => rfl
  | cons c rest ih =>
    simp only [List.mem_cons, not_or] at h
    have hc : quotedAfter quoted c = quoted := by simp [quotedAfter, Ne.symm h.1]
    rw [quotedThrough_cons, hc, ih h.2]

theorem condense_go_append (quoted : Bool) (a b : Text) :
    condense.go quoted (a ++ b) =
      condense.go quoted a ++ condense.go (quotedThrough quoted a) b := by
  induction a generalizing quoted with
  | nil => rfl
  | cons c rest ih =>
    simp only [List.cons_append, condense.go, quotedThrough_cons, ih]
    split <;> rfl

/-- Condensing drops no quote. -/
theorem quotedThrough_condense_go (quoted : Bool) (text : Text) :
    quotedThrough quoted (condense.go quoted text) = quotedThrough quoted text := by
  induction text generalizing quoted with
  | nil => rfl
  | cons c rest ih =>
    rw [condense.go]
    split
    · rw [quotedThrough_cons, quotedThrough_cons, ih]
    · rename_i hkept
      rw [quotedThrough_cons, quotedAfter_of_not_isKept hkept, ih]

theorem length_condense_go_le (quoted : Bool) (text : Text) :
    (condense.go quoted text).length ≤ text.length := by
  induction text generalizing quoted with
  | nil => exact Nat.le_refl _
  | cons c rest ih =>
    have hrest := ih (quotedAfter quoted c)
    simp only [condense.go]
    split
    · exact Nat.succ_le_succ hrest
    · exact Nat.le_succ_of_le hrest

/-- The parts of a text without loose blanks have no loose blanks. -/
theorem condense_go_append_eq_iff {quoted : Bool} {a b : Text} :
    condense.go quoted (a ++ b) = a ++ b ↔
      condense.go quoted a = a ∧ condense.go (quotedThrough quoted a) b = b := by
  rw [condense_go_append]
  constructor
  · intro h
    have hlengths := congrArg List.length h
    have ha := length_condense_go_le quoted a
    have hb := length_condense_go_le (quotedThrough quoted a) b
    rw [List.length_append, List.length_append] at hlengths
    exact List.append_inj h (by omega)
  · rintro ⟨ha, hb⟩
    rw [ha, hb]

/-! ### Tight texts -/

/-- A text that condensing leaves as it is, also in front of others. -/
def Tight (text : Text) : Prop :=
  ∀ rest, condense.go false (text ++ rest) = text ++ condense.go false rest

theorem Tight.append {a b : Text} (ha : Tight a) (hb : Tight b) : Tight (a ++ b) := by
  intro rest
  rw [List.append_assoc, ha, hb, List.append_assoc]

theorem Tight.condense_eq {text : Text} (h : Tight text) : condense text = text := by
  have hgo := h []
  rwa [List.append_nil, condense.go, List.append_nil] at hgo

/-- A text without blanks and quotes is tight. -/
theorem tight_of_forall {text : Text}
    (h : ∀ c ∈ text, Text.isBlank c = false ∧ c ≠ Symbol.quote) : Tight text := by
  intro rest
  induction text with
  | nil => rfl
  | cons c tail ih =>
    obtain ⟨⟨hblank, hquote⟩, htail⟩ := List.forall_mem_cons.1 h
    have hafter : quotedAfter false c = false := by simp [quotedAfter, hquote]
    have hkept : isKept false c = true := by simp [isKept, hblank]
    rw [List.cons_append, condense.go, if_pos hkept, hafter, ih htail, List.cons_append]

/-- Inside a literal everything is kept. -/
theorem condense_go_quoted {content : Text} (h : Symbol.quote ∉ content) (rest : Text) :
    condense.go true (content ++ rest) = content ++ condense.go true rest := by
  induction content with
  | nil => rfl
  | cons c tail ih =>
    simp only [List.mem_cons, not_or] at h
    have hafter : quotedAfter true c = true := by simp [quotedAfter, Ne.symm h.1]
    have hkept : isKept true c = true := by simp [isKept, hafter]
    rw [List.cons_append, condense.go, if_pos hkept, hafter, ih h.2, List.cons_append]

theorem tight_literal {content : Text} (h : Symbol.quote ∉ content) :
    Tight (Symbol.quote :: content ++ [Symbol.quote]) := by
  intro rest
  have hopen : condense.go false (Symbol.quote :: (content ++ ([Symbol.quote] ++ rest))) =
      Symbol.quote :: condense.go true (content ++ ([Symbol.quote] ++ rest)) := rfl
  have hclose : condense.go true ([Symbol.quote] ++ rest) =
      Symbol.quote :: condense.go false rest := rfl
  rw [List.cons_append, List.cons_append, List.append_assoc, hopen, condense_go_quoted h, hclose,
    List.cons_append, List.append_assoc, List.singleton_append]

end Assertions
