import Assertions.Proofs.LooseBlanks
import Assertions.Proofs.Partners

/-!
# Counting brackets

`countOutside` counts a character outside the literals of a text. With it the reader of brackets can
be told without its state. As long as no bracket closes too much, the depth is the number of those
that open less the number of those that close (`Nesting.depth_after`), and that none closes too much
is that up to every place no more of them close than open (`Nesting.shields_closeBracket_iff`).
-/

namespace Assertions

open Nesting

/-- How often a character stands outside literals in a text that starts inside one or not. -/
def countOutside (x : Char) (quoted : Bool) : Text → Nat
  | [] => 0
  | c :: rest =>
    (if c = x ∧ quoted = false then 1 else 0) + countOutside x (quotedAfter quoted c) rest

theorem countOutside_append (x : Char) (quoted : Bool) (a b : Text) :
    countOutside x quoted (a ++ b) =
      countOutside x quoted a + countOutside x (quotedThrough quoted a) b := by
  induction a generalizing quoted with
  | nil => simp [countOutside]
  | cons c rest ih =>
    rw [List.cons_append, countOutside, ih, countOutside, quotedThrough_cons, Nat.add_assoc]

/-- Behind whole literals the count starts anew. -/
theorem countOutside_append_of_closed (x : Char) {a : Text} (h : quotedThrough false a = false)
    (b : Text) :
    countOutside x false (a ++ b) = countOutside x false a + countOutside x false b := by
  rw [countOutside_append, h]

namespace Nesting

variable {n : Nesting} {text : Text}

/-- One character changes the depth as it changes the counts. -/
theorem depth_step {c : Char} (h : ¬(c = Symbol.closeBracket ∧ n.isOutermost = true)) :
    (n.step c).depth + (if c = Symbol.closeBracket ∧ n.quoted = false then 1 else 0) =
      n.depth + (if c = Symbol.openBracket ∧ n.quoted = false then 1 else 0) := by
  obtain ⟨depth, quoted⟩ := n
  cases quoted with
  | true =>
    simp only [Bool.true_eq_false, and_false, if_false, Nat.add_zero]
    unfold step
    split <;> rfl
  | false =>
    by_cases hopen : c = Symbol.openBracket
    · subst hopen
      rw [step_openBracket rfl]
      rfl
    · by_cases hclose : c = Symbol.closeBracket
      · subst hclose
        have hdepth : depth ≠ 0 := by
          rintro rfl
          exact h ⟨rfl, rfl⟩
        rw [step_closeBracket rfl]
        simp only [and_self, if_true, hopen, false_and, if_false]
        omega
      · rw [step_of_ne hopen hclose]
        simp [hopen, hclose]

/-- **Depths.** Where no bracket closes too much, the brackets that are open in the end and those
that were closed make up those that were open at first and those that were opened. -/
theorem depth_after (h : Shields Symbol.closeBracket n text) :
    (n.after text).depth + countOutside Symbol.closeBracket n.quoted text =
      n.depth + countOutside Symbol.openBracket n.quoted text := by
  induction text generalizing n with
  | nil => rfl
  | cons c rest ih =>
    have hrest := ih h.2
    have hstep := depth_step h.1
    rw [quoted_step] at hrest
    rw [after_cons, countOutside, countOutside]
    omega

theorem isOutermost_eq_false_iff : n.isOutermost = false ↔ (n.quoted = false → 0 < n.depth) := by
  obtain ⟨depth, quoted⟩ := n
  cases quoted <;> simp [isOutermost, Nat.pos_iff_ne_zero]

/-- A character is nowhere by itself if, wherever it is outside literals, a bracket is open. -/
theorem shields_iff {stop : Char} :
    Shields stop n text ↔ ∀ front back, text = front ++ stop :: back →
      (n.after front).quoted = false → 0 < (n.after front).depth := by
  simp only [← isOutermost_eq_false_iff]
  constructor
  · rintro h front back rfl
    have hstop := (shields_append.1 h).2.1
    simpa using hstop
  · intro h
    induction text generalizing n with
    | nil => trivial
    | cons c rest ih =>
      constructor
      · rintro ⟨rfl, houtermost⟩
        rw [show n.isOutermost = false from h [] rest rfl] at houtermost
        cases houtermost
      · refine ih fun front back heq => ?_
        rw [heq] at h
        exact h (c :: front) back rfl

/-- No bracket closes too much exactly if up to every place no more of them close than open. -/
theorem shields_closeBracket_iff :
    Shields Symbol.closeBracket n text ↔ ∀ front, front <+: text →
      countOutside Symbol.closeBracket n.quoted front ≤
        n.depth + countOutside Symbol.openBracket n.quoted front := by
  constructor
  · rintro h front ⟨back, rfl⟩
    have hdepth := depth_after (shields_append.1 h).1
    omega
  · intro h
    induction text generalizing n with
    | nil => trivial
    | cons c rest ih =>
      have hc : ¬(c = Symbol.closeBracket ∧ n.isOutermost = true) := by
        rintro ⟨rfl, houtermost⟩
        simp only [isOutermost, Bool.and_eq_true, beq_iff_eq, Bool.not_eq_true'] at houtermost
        have hfirst := h [Symbol.closeBracket] ⟨rest, rfl⟩
        rw [houtermost.1, houtermost.2] at hfirst
        exact absurd hfirst (by decide)
      refine ⟨hc, ih fun front hfront => ?_⟩
      obtain ⟨back, rfl⟩ := hfront
      have hcounts := h (c :: front) ⟨back, rfl⟩
      have hstep := depth_step hc
      rw [countOutside, countOutside] at hcounts
      rw [quoted_step]
      omega

end Nesting

/-- **Balanced by counting.** A text is balanced if its quotes are even in number, as many brackets
close as open, and up to every place no more of them close than open. -/
theorem balanced_iff {text : Text} :
    Balanced text ↔ text.count Symbol.quote % 2 = 0 ∧
      countOutside Symbol.closeBracket false text = countOutside Symbol.openBracket false text ∧
      ∀ front, front <+: text →
        countOutside Symbol.closeBracket false front ≤
          countOutside Symbol.openBracket false front := by
  have hshields : Shields Symbol.closeBracket outermost text ↔ ∀ front, front <+: text →
      countOutside Symbol.closeBracket false front ≤
        countOutside Symbol.openBracket false front := by
    simpa only [outermost, Nat.zero_add] using @shields_closeBracket_iff outermost text
  have hquoted : (outermost.after text).quoted = quotedThrough false text :=
    quoted_after outermost text
  rw [← hshields, ← quotedThrough_eq_false_iff, ← hquoted]
  constructor
  · intro h
    have hdepth := depth_after (h 0).2
    rw [(h 0).1] at hdepth
    exact ⟨congrArg Nesting.quoted (h 0).1, by simpa using hdepth, (h 0).2⟩
  · rintro ⟨hclosed, hcounts, h⟩
    have hdepth := depth_after h
    have hzero : (outermost.after text).depth = 0 := by
      simp only [outermost, Nat.zero_add] at hdepth ⊢
      omega
    refine balanced_of_outermost ?_ h
    rw [show outermost.after text = ⟨(outermost.after text).depth, (outermost.after text).quoted⟩
      from rfl, hzero, hclosed]
    rfl

end Assertions
