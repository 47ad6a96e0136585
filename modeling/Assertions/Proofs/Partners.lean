import Assertions.Proofs.CallSites
import Mathlib.Data.List.Induction

/-!
# Brackets and their partners

A closing bracket outside literals is the partner of an opening one exactly if a bracket is open in
front of it (`isPartnered_iff`): the last bracket that is still open there encloses a balanced text.
Whether an opening bracket has a partner is not changed by balanced text behind it, and in a balanced
text every opening bracket has one.

The pieces that a balanced argument list is cut into are balanced.
-/

namespace Assertions

open Nesting

/-! ### Open brackets -/

/-- Where a literal is open, a quote has opened it. -/
theorem exists_quote_of_after {text : Text} {d : Nat} (h : outermost.after text = ⟨d, true⟩) :
    ∃ front content, text = front ++ Symbol.quote :: content ∧ Symbol.quote ∉ content ∧
      outermost.after front = ⟨d, false⟩ := by
  induction text using List.reverseRecOn with
  | nil => cases h
  | append_singleton text c ih =>
    rw [after_append] at h
    obtain ⟨n, hn⟩ : ∃ n, outermost.after text = n := ⟨_, rfl⟩
    rw [hn] at h
    by_cases hc : c = Symbol.quote
    · subst hc
      obtain ⟨depth, quoted⟩ := n
      cases quoted with
      | true => cases h
      | false =>
        cases h
        exact ⟨text, [], rfl, List.not_mem_nil, hn⟩
    · have hquoted : n.quoted = true := by
        have hstep := Nesting.quoted_step n c
        rw [show n.step c = ⟨d, true⟩ from h, quotedAfter, if_neg (by simpa using hc)] at hstep
        exact hstep.symm
      have hsame : n.step c = n := by simp [step, hc, hquoted]
      obtain ⟨front, content, rfl, hcontent, hfront⟩ :=
        ih (hn.trans (hsame.symm.trans h))
      refine ⟨front, content ++ [c], by simp, ?_, hfront⟩
      simp only [List.mem_append, List.mem_singleton, not_or]
      exact ⟨hcontent, Ne.symm hc⟩

/-- **Open brackets.** Where a bracket is open there is a last one, and what is behind it is
balanced. The induction is on the length of the text, since a closing bracket at the end leads from
its partner to the bracket that is open around both. -/
theorem exists_open_of_after (bound : Nat) :
    ∀ (text : Text) (d : Nat), text.length ≤ bound → outermost.after text = ⟨d + 1, false⟩ →
      ∃ front inside, text = front ++ Symbol.openBracket :: inside ∧
        outermost.after front = ⟨d, false⟩ ∧ Balanced inside := by
  induction bound with
  | zero =>
    intro text d hlength h
    rw [List.eq_nil_of_length_eq_zero (Nat.le_zero.1 hlength)] at h
    cases h
  | succ bound ih =>
    intro text d hlength h
    rcases List.eq_nil_or_concat text with rfl | ⟨body, c, rfl⟩
    · cases h
    · rw [List.concat_eq_append] at hlength h ⊢
      rw [List.length_append, List.length_singleton] at hlength
      have hbody : body.length ≤ bound := Nat.le_of_succ_le_succ hlength
      rw [after_append] at h
      obtain ⟨n, hn⟩ : ∃ n, outermost.after body = n := ⟨_, rfl⟩
      rw [hn] at h
      have hstep : n.step c = ⟨d + 1, false⟩ := h
      have hquoted := Nesting.quoted_step n c
      rw [hstep] at hquoted
      by_cases hquote : c = Symbol.quote
      · -- The literal that ends here is behind the bracket.
        subst hquote
        obtain ⟨depth, quoted⟩ := n
        cases quoted with
        | false => cases hquoted
        | true =>
          cases hstep
          obtain ⟨before, content, rfl, hcontent, hbefore⟩ := exists_quote_of_after hn
          simp only [List.length_append, List.length_cons] at hbody
          obtain ⟨front, inside, rfl, hfront, hinside⟩ := ih before d (by omega) hbefore
          exact ⟨front, inside ++ (Symbol.quote :: content ++ [Symbol.quote]), by simp, hfront,
            hinside.append (balanced_literal hcontent)⟩
      · have hopen' : n.quoted = false := by
          rw [quotedAfter, if_neg (by simpa using hquote)] at hquoted
          exact hquoted.symm
        by_cases hopen : c = Symbol.openBracket
        · subst hopen
          rw [step_openBracket hopen'] at hstep
          cases hstep
          refine ⟨body, [], rfl, ?_, balanced_nil⟩
          rw [hn, ← hopen']
        · by_cases hclose : c = Symbol.closeBracket
          · subst hclose
            rw [step_closeBracket hopen'] at hstep
            have hdepth : outermost.after body = ⟨d + 1 + 1, false⟩ := by
              have hless : n.depth - 1 = d + 1 := congrArg Nesting.depth hstep
              rw [hn, ← hopen', show d + 1 + 1 = n.depth by omega]
            obtain ⟨before, inside, rfl, hbefore, hinside⟩ := ih body (d + 1) hbody hdepth
            simp only [List.length_append, List.length_cons] at hbody
            obtain ⟨front, outside, rfl, hfront, houtside⟩ := ih before d (by omega) hbefore
            exact ⟨front, outside ++ (Symbol.openBracket :: inside ++ [Symbol.closeBracket]),
              by simp, hfront, houtside.append hinside.bracketed⟩
          · have hsame : n.step c = n := by
              rw [step_of_ne hopen hclose, quotedAfter, if_neg (by simpa using hquote)]
            obtain ⟨front, inside, rfl, hfront, hinside⟩ :=
              ih body d hbody (hn.trans (hsame.symm.trans hstep))
            refine ⟨front, inside ++ [c], by simp, hfront, hinside.append ?_⟩
            exact balanced_of_passive (List.forall_mem_singleton.2 ⟨hquote, hopen, hclose⟩)

/-! ### Partners -/

/-- Whether a closing bracket at a position is the partner of an opening one outside literals. -/
def IsPartnered (text : Text) (at' : Nat) : Prop :=
  ∃ front rest, text = front ++ Symbol.openBracket :: rest ∧ quotedThrough false front = false ∧
    closingBracket? text (Text.size front) = some at'

/-- **Partners.** A closing bracket outside literals has a partner exactly if a bracket is open in
front of it. -/
theorem isPartnered_iff {before after : Text} (hbefore : quotedThrough false before = false) :
    IsPartnered (before ++ Symbol.closeBracket :: after) (Text.size before) ↔
      (outermost.after before).depth ≠ 0 := by
  have hquoted : (outermost.after before).quoted = false :=
    (Nesting.quoted_after outermost before).trans hbefore
  constructor
  · rintro ⟨front, rest, htext, hfront, hclosing⟩
    rw [htext, closingBracket?_append] at hclosing
    obtain ⟨⟨inside, later⟩, hclose, hsize⟩ := Option.map_eq_some_iff.1 hclosing
    have hinside := balanced_of_enclosed? hclose
    have hsplit : front ++ Symbol.openBracket :: inside = before := by
      rw [eq_of_enclosed? hclose] at htext
      have hboth : before ++ Symbol.closeBracket :: after =
          (front ++ Symbol.openBracket :: inside) ++ Symbol.closeBracket :: later := by
        rw [htext]
        simp
      refine (Text.append_inj_of_size hboth ?_).1.symm
      rw [← hsize]
      simp [Nat.add_assoc]
      rfl
    have hstate : outermost.after front = ⟨(outermost.after front).depth, false⟩ := by
      have hq := Nesting.quoted_after outermost front
      rw [show quotedThrough outermost.quoted front = false from hfront] at hq
      rw [← hq]
    rw [← hsplit, after_append, after_cons, hstate, step_openBracket rfl, (hinside _).1]
    exact Nat.succ_ne_zero _
  · intro hdepth
    obtain ⟨d, hd⟩ := Nat.exists_eq_succ_of_ne_zero hdepth
    have hstate : outermost.after before = ⟨d + 1, false⟩ := by
      rw [← hquoted, ← Nat.succ_eq_add_one, ← hd]
    obtain ⟨front, inside, rfl, hfront, hinside⟩ :=
      exists_open_of_after before.length before d (Nat.le_refl _) hstate
    refine ⟨front, inside ++ Symbol.closeBracket :: after, by simp, ?_, ?_⟩
    · have hq := Nesting.quoted_after outermost front
      rw [hfront] at hq
      exact hq.symm
    · rw [List.append_assoc, List.cons_append, closingBracket?_append,
        enclosed?_of_balanced hinside]
      simp [Nat.add_assoc]
      rfl

/-- The search for a closing bracket goes past balanced text. -/
theorem Balanced.enclosed?_append {inside : Text} (h : Balanced inside) (after : Text) :
    enclosed? (inside ++ after) =
      (enclosed? after).map fun found => (inside ++ found.1, found.2) := by
  obtain ⟨hafter, hshields⟩ := h 0
  have hsearch := enclosed?_go_append hshields after
  rw [hafter] at hsearch
  exact hsearch

/-- Balanced text behind an opening bracket does not matter to whether it is closed. -/
theorem closingBracket?_eq_none_iff {before inside after : Text} (h : Balanced inside) :
    closingBracket? (before ++ Symbol.openBracket :: inside ++ after) (Text.size before) = none ↔
      enclosed? after = none := by
  rw [List.append_assoc, List.cons_append, closingBracket?_append, Option.map_eq_none_iff,
    h.enclosed?_append, Option.map_eq_none_iff]

/-! ### Balanced text -/

/-- The search for a closing bracket goes past all of a text if it finds none. -/
theorem shields_of_enclosed?_go_eq_none {n : Nesting} {text : Text}
    (h : enclosed?.go n text = none) : Shields Symbol.closeBracket n text := by
  induction text generalizing n with
  | nil => trivial
  | cons c rest ih =>
    rw [enclosed?.go] at h
    split at h
    · cases h
    · rename_i hc
      exact ⟨by simpa using hc, ih (Option.map_eq_none_iff.1 h)⟩

/-- An opening bracket of a balanced text is closed in it. -/
theorem Balanced.enclosed?_ne_none {before after : Text}
    (h : Balanced (before ++ Symbol.openBracket :: after))
    (hbefore : quotedThrough false before = false) : enclosed? after ≠ none := by
  intro hnone
  have hquoted : (outermost.after before).quoted = false :=
    (Nesting.quoted_after outermost before).trans hbefore
  have hdepth := (after_add (shields_of_enclosed?_go_eq_none hnone)
    ((outermost.after before).depth + 1)).1
  have hall := (h 0).1
  rw [after_append, after_cons, show (⟨0, false⟩ : Nesting) = outermost from rfl,
    step_openBracket hquoted] at hall
  simp only [outermost, Nat.zero_add] at hdepth hall
  rw [hdepth] at hall
  cases hall

/-- No closing bracket of a balanced text stands by itself. -/
theorem Balanced.not_closed {inside after : Text} (hinside : Balanced inside) :
    ¬Balanced (inside ++ Symbol.closeBracket :: after) := by
  intro h
  have hshields := (shields_append.1 (h 0).2).2
  rw [(hinside 0).1] at hshields
  exact hshields.1 ⟨rfl, rfl⟩

theorem balanced_of_outermost {text : Text} (hafter : outermost.after text = outermost)
    (hshields : Shields Symbol.closeBracket outermost text) : Balanced text := by
  intro d
  obtain ⟨hafter', hshields'⟩ := after_add hshields d
  rw [hafter] at hafter'
  simp only [outermost, Nat.zero_add] at hafter' hshields'
  exact ⟨hafter', hshields'⟩

/-- The pieces of a text that ends outside brackets and literals do so as well. -/
theorem after_pieces {n : Nesting} {text : Text} (hafter : n.after text = outermost)
    (hshields : Shields Symbol.closeBracket n text) :
    n.after (pieces n text).1 = outermost ∧
      Shields Symbol.closeBracket n (pieces n text).1 ∧
      ∀ piece ∈ (pieces n text).2, Balanced piece := by
  induction text generalizing n with
  | nil => exact ⟨hafter, trivial, List.forall_mem_nil _⟩
  | cons c rest ih =>
    obtain ⟨hfirst, hshield, hothers⟩ := ih hafter hshields.2
    simp only [pieces]
    split
    · rename_i hcut
      simp only [Bool.and_eq_true, beq_iff_eq, isOutermost, Bool.not_eq_true'] at hcut
      obtain ⟨depth, quoted⟩ := n
      obtain ⟨rfl, rfl, rfl⟩ := hcut
      exact ⟨rfl, trivial, List.forall_mem_cons.2 ⟨balanced_of_outermost hfirst hshield, hothers⟩⟩
    · exact ⟨hfirst, ⟨hshields.1, hshield⟩, hothers⟩

end Assertions
