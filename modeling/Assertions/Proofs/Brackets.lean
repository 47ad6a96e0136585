import Assertions.Nesting.Arguments
import Assertions.Proofs.Spacing

/-!
# Balanced text

`Nesting.after` follows the brackets and literals of a text from its start to its end, and
`Nesting.Shields` says that a character never stands by itself on the way, in no bracket and no
literal. With these two the searches of `enclosed?` and `pieces` go past a text in one step.

A text is `Balanced` if it closes what it opens and nothing else, and `Uncut` if no comma stands by
itself in it. A search for the end of an argument list goes past a balanced text, and the cuts of an
argument list with such texts in it are the commas between them (`splitArguments_joinCommas`).
-/

namespace Assertions

namespace Nesting

/-- What encloses the position after a text. -/
def after (n : Nesting) (text : Text) : Nesting := text.foldl step n

@[simp] theorem after_nil (n : Nesting) : n.after [] = n := rfl

@[simp] theorem after_cons (n : Nesting) (c : Char) (rest : Text) :
    n.after (c :: rest) = (n.step c).after rest := rfl

@[simp] theorem after_append (n : Nesting) (a b : Text) :
    n.after (a ++ b) = (n.after a).after b := List.foldl_append

/-- Whether a character is nowhere in a text in no bracket and no literal. -/
def Shields (stop : Char) : Nesting → Text → Prop
  | _, [] => True
  | n, c :: rest => ¬(c = stop ∧ n.isOutermost = true) ∧ Shields stop (n.step c) rest

theorem shields_append {stop : Char} {n : Nesting} {a b : Text} :
    Shields stop n (a ++ b) ↔ Shields stop n a ∧ Shields stop (n.after a) b := by
  induction a generalizing n with
  | nil => simp [Shields]
  | cons c rest ih => simp only [List.cons_append, Shields, ih, after_cons, and_assoc]

/-- A character that the reader of brackets passes over. -/
def IsPassive (c : Char) : Prop :=
  c ≠ Symbol.quote ∧ c ≠ Symbol.openBracket ∧ c ≠ Symbol.closeBracket

theorem step_passive {c : Char} (h : IsPassive c) (n : Nesting) : n.step c = n := by
  obtain ⟨hquote, hopen, hclose⟩ := h
  simp [step, hquote, hopen, hclose]

/-- Nothing changes within a literal until it ends. -/
theorem after_quoted {d : Nat} {content : Text} (h : Symbol.quote ∉ content) :
    after ⟨d, true⟩ content = ⟨d, true⟩ := by
  induction content with
  | nil => rfl
  | cons c rest ih =>
    simp only [List.mem_cons, not_or] at h
    have hc : step ⟨d, true⟩ c = ⟨d, true⟩ := by simp [step, Ne.symm h.1]
    rw [after_cons, hc, ih h.2]

/-- Within a literal nothing stands by itself. -/
theorem shields_quoted {stop : Char} {d : Nat} {content : Text} (h : Symbol.quote ∉ content) :
    Shields stop ⟨d, true⟩ content := by
  induction content with
  | nil => trivial
  | cons c rest ih =>
    simp only [List.mem_cons, not_or] at h
    have hc : step ⟨d, true⟩ c = ⟨d, true⟩ := by simp [step, Ne.symm h.1]
    refine ⟨by simp [isOutermost], ?_⟩
    rw [hc]
    exact ih h.2

end Nesting

open Nesting

/-- The search for a closing bracket goes past a text that has none by itself. -/
theorem enclosed?_go_append {n : Nesting} {a : Text} (h : Shields Symbol.closeBracket n a)
    (b : Text) :
    enclosed?.go n (a ++ b) =
      (enclosed?.go (n.after a) b).map fun (inside, rest) => (a ++ inside, rest) := by
  induction a generalizing n with
  | nil => simp
  | cons c rest ih =>
    obtain ⟨hc, hrest⟩ := h
    have hgo : ¬(c == Symbol.closeBracket && n.isOutermost) = true := by simpa using hc
    simp only [List.cons_append, enclosed?.go, if_neg hgo, ih hrest, Option.map_map, after_cons]
    rfl

/-- A bracket that closes another one stands by itself after what it encloses. -/
theorem isOutermost_of_enclosed?_go {n : Nesting} {text inside rest : Text}
    (h : enclosed?.go n text = some (inside, rest)) : (n.after inside).isOutermost = true := by
  induction text generalizing n inside with
  | nil => cases h
  | cons c tail ih =>
    simp only [enclosed?.go] at h
    split at h
    · rename_i hc
      cases h
      simp only [Bool.and_eq_true] at hc
      exact hc.2
    · simp only [Option.map_eq_some_iff, Prod.mk.injEq, Prod.exists] at h
      obtain ⟨inside', rest', hgo, rfl, rfl⟩ := h
      rw [after_cons]
      exact ih hgo

/-- In front of the bracket that closes another one no bracket does. -/
theorem shields_of_enclosed?_go {n : Nesting} {text inside rest : Text}
    (h : enclosed?.go n text = some (inside, rest)) : Shields Symbol.closeBracket n inside := by
  induction text generalizing n inside with
  | nil => cases h
  | cons c tail ih =>
    simp only [enclosed?.go] at h
    split at h
    · cases h
      trivial
    · rename_i hc
      simp only [Option.map_eq_some_iff, Prod.mk.injEq, Prod.exists] at h
      obtain ⟨inside', rest', hgo, rfl, rfl⟩ := h
      exact ⟨by simpa using hc, ih hgo⟩

/-- A text without a comma by itself stays in one piece. -/
theorem pieces_append {n : Nesting} {a : Text} (h : Shields Symbol.comma n a) (b : Text) :
    pieces n (a ++ b) = (a ++ (pieces (n.after a) b).1, (pieces (n.after a) b).2) := by
  induction a generalizing n with
  | nil => simp
  | cons c rest ih =>
    obtain ⟨hc, hrest⟩ := h
    have hcut : ¬(c == Symbol.comma && n.isOutermost) = true := by simpa using hc
    simp only [List.cons_append, pieces, ih hrest, if_neg hcut, after_cons]

/-! ### Literals -/

theorem Nesting.quoted_step (n : Nesting) (c : Char) :
    (n.step c).quoted = quotedAfter n.quoted c := by
  unfold step quotedAfter
  split
  · rfl
  · split
    · rfl
    · split
      · rfl
      · split <;> rfl

/-- The reader of brackets and the one of blanks agree on what is a literal. -/
theorem Nesting.quoted_after (n : Nesting) (text : Text) :
    (n.after text).quoted = quotedThrough n.quoted text := by
  induction text generalizing n with
  | nil => rfl
  | cons c rest ih => rw [after_cons, ih, quoted_step, quotedThrough_cons]

/-- The brackets of a call enclose whole literals. -/
theorem quotedThrough_of_enclosed? {text inside rest : Text}
    (h : enclosed? text = some (inside, rest)) : quotedThrough false inside = false := by
  have houtermost := isOutermost_of_enclosed?_go h
  simp only [isOutermost, Bool.and_eq_true, Bool.not_eq_true'] at houtermost
  rw [quoted_after] at houtermost
  exact houtermost.2

/-- Blanks outside literals do not matter to the reader of brackets. -/
theorem Nesting.step_of_not_isKept {n : Nesting} {c : Char} (h : ¬isKept n.quoted c = true) :
    n.step c = n := by
  have hblank : Text.isBlank c = true := by
    simp only [isKept, Bool.or_eq_true, Bool.not_eq_true', not_or, Bool.not_eq_false] at h
    exact h.2
  refine step_passive ⟨ne_quote_of_isBlank hblank, ?_, ?_⟩ n
  · rintro rfl
    exact absurd hblank (by decide)
  · rintro rfl
    exact absurd hblank (by decide)

theorem Nesting.after_condense (n : Nesting) (text : Text) :
    n.after (condense.go n.quoted text) = n.after text := by
  induction text generalizing n with
  | nil => rfl
  | cons c rest ih =>
    have hrest := ih (n.step c)
    rw [quoted_step] at hrest
    rw [condense.go]
    split
    · rw [after_cons, after_cons, hrest]
    · rename_i hkept
      rw [after_cons, ← hrest, step_of_not_isKept hkept]

theorem Nesting.shields_of_condense {stop : Char} (hstop : Text.isBlank stop = false) {n : Nesting}
    {text : Text} (h : Shields stop n (condense.go n.quoted text)) : Shields stop n text := by
  induction text generalizing n with
  | nil => trivial
  | cons c rest ih =>
    rw [condense.go] at h
    split at h
    · rw [← quoted_step] at h
      exact ⟨h.1, ih h.2⟩
    · rename_i hkept
      have hstep := step_of_not_isKept hkept
      rw [quotedAfter_of_not_isKept hkept] at h
      refine ⟨?_, ?_⟩
      · rintro ⟨rfl, -⟩
        simp [isKept, hstop] at hkept
      · rw [hstep]
        exact ih h

theorem Nesting.shields_condense {stop : Char} {n : Nesting} {text : Text}
    (h : Shields stop n text) : Shields stop n (condense.go n.quoted text) := by
  induction text generalizing n with
  | nil => trivial
  | cons c rest ih =>
    have hrest := ih h.2
    rw [condense.go]
    rw [quoted_step] at hrest
    split
    · exact ⟨h.1, hrest⟩
    · rename_i hkept
      rwa [step_of_not_isKept hkept] at hrest

/-- Brackets around a text do not matter to a character that does not close them. -/
theorem Nesting.step_add {n : Nesting} {c : Char}
    (h : ¬(c = Symbol.closeBracket ∧ n.isOutermost = true)) (d : Nat) :
    step ⟨n.depth + d, n.quoted⟩ c = ⟨(n.step c).depth + d, (n.step c).quoted⟩ := by
  obtain ⟨depth, quoted⟩ := n
  by_cases hclose : c = Symbol.closeBracket
  · subst hclose
    have hstep : ∀ k, step ⟨k, quoted⟩ Symbol.closeBracket =
        ⟨if quoted then k else k - 1, quoted⟩ := by
      intro k
      cases quoted <;> rfl
    cases quoted with
    | true => simp [hstep]
    | false =>
      have hdepth : depth ≠ 0 := by
        rintro rfl
        exact h ⟨rfl, rfl⟩
      simp only [hstep, Bool.false_eq_true, if_false, Nesting.mk.injEq, and_true]
      omega
  · unfold step
    simp only [beq_iff_eq, hclose, if_false]
    split
    · rfl
    · split
      · rfl
      · split
        · simp only [Nesting.mk.injEq, and_true]
          omega
        · rfl

/-- Brackets around a text do not matter to a text that does not close them. -/
theorem Nesting.after_add {n : Nesting} {text : Text} (h : Shields Symbol.closeBracket n text)
    (d : Nat) :
    after ⟨n.depth + d, n.quoted⟩ text = ⟨(n.after text).depth + d, (n.after text).quoted⟩ ∧
      Shields Symbol.closeBracket ⟨n.depth + d, n.quoted⟩ text := by
  induction text generalizing n with
  | nil => exact ⟨rfl, trivial⟩
  | cons c rest ih =>
    obtain ⟨hafter, hshields⟩ := ih h.2
    rw [after_cons, after_cons, Shields, step_add h.1]
    refine ⟨hafter, ?_, hshields⟩
    rintro ⟨hc, houtermost⟩
    simp only [isOutermost, Bool.and_eq_true, beq_iff_eq, Nat.add_eq_zero_iff] at houtermost
    exact h.1 ⟨hc, by simp [isOutermost, houtermost.1.1, houtermost.2]⟩

/-! ### Balanced and uncut text -/

/-- A text that closes what it opens, and nothing else. -/
def Balanced (text : Text) : Prop :=
  ∀ d, after ⟨d, false⟩ text = ⟨d, false⟩ ∧ Shields Symbol.closeBracket ⟨d, false⟩ text

/-- A text in which no comma stands by itself. -/
def Uncut (text : Text) : Prop := ∀ d, Shields Symbol.comma ⟨d, false⟩ text

/-- A text is balanced if it is without its loose blanks. -/
theorem balanced_of_condense {text : Text} (h : Balanced (condense text)) : Balanced text := by
  intro d
  obtain ⟨hafter, hshields⟩ := h d
  exact ⟨(after_condense ⟨d, false⟩ text).symm.trans hafter,
    shields_of_condense (by decide) hshields⟩

theorem Balanced.condense {text : Text} (h : Balanced text) : Balanced (condense text) := by
  intro d
  obtain ⟨hafter, hshields⟩ := h d
  exact ⟨(after_condense ⟨d, false⟩ text).trans hafter, shields_condense hshields⟩

/-- What brackets enclose is balanced. -/
theorem balanced_of_enclosed? {text inside rest : Text} (h : enclosed? text = some (inside, rest)) :
    Balanced inside := by
  have hshields := shields_of_enclosed?_go h
  have houtermost := isOutermost_of_enclosed?_go h
  simp only [isOutermost, Bool.and_eq_true, beq_iff_eq, Bool.not_eq_true'] at houtermost
  intro d
  obtain ⟨hafter, hshields⟩ := after_add hshields d
  rw [houtermost.1, houtermost.2] at hafter
  simp only [outermost, Nat.zero_add] at hafter hshields
  exact ⟨hafter, hshields⟩

theorem balanced_nil : Balanced [] := fun _ => ⟨rfl, trivial⟩

theorem Balanced.append {a b : Text} (ha : Balanced a) (hb : Balanced b) : Balanced (a ++ b) := by
  intro d
  rw [after_append, (ha d).1, shields_append, (ha d).1]
  exact ⟨(hb d).1, (ha d).2, (hb d).2⟩

theorem Uncut.append {a b : Text} (hbalanced : Balanced a) (ha : Uncut a) (hb : Uncut b) :
    Uncut (a ++ b) := by
  intro d
  rw [shields_append, (hbalanced d).1]
  exact ⟨ha d, hb d⟩

/-- A text of passive characters is balanced. -/
theorem balanced_of_passive {text : Text} (h : ∀ c ∈ text, IsPassive c) : Balanced text := by
  intro d
  induction text with
  | nil => exact ⟨rfl, trivial⟩
  | cons c rest ih =>
    obtain ⟨hc, hrest⟩ := List.forall_mem_cons.1 h
    rw [after_cons, Shields, step_passive hc]
    exact ⟨(ih hrest).1, fun hclose => hc.2.2 hclose.1, (ih hrest).2⟩

theorem uncut_of_passive {text : Text} (h : ∀ c ∈ text, IsPassive c)
    (hcomma : Symbol.comma ∉ text) : Uncut text := by
  intro d
  induction text with
  | nil => trivial
  | cons c rest ih =>
    obtain ⟨hc, hrest⟩ := List.forall_mem_cons.1 h
    simp only [List.mem_cons, not_or] at hcomma
    rw [Shields, step_passive hc]
    exact ⟨fun heq => hcomma.1 heq.1.symm, ih hrest hcomma.2⟩

/-- What encloses the positions of a literal. -/
theorem after_literal {d : Nat} {content : Text} (h : Symbol.quote ∉ content) :
    after ⟨d, false⟩ (Symbol.quote :: content ++ [Symbol.quote]) = ⟨d, false⟩ := by
  rw [after_append, after_cons]
  show (after ⟨d, true⟩ content).after [Symbol.quote] = ⟨d, false⟩
  rw [after_quoted h]
  rfl

/-- A literal hides every character but its quotes. -/
theorem shields_literal {stop : Char} (hstop : stop ≠ Symbol.quote) {d : Nat} {content : Text}
    (h : Symbol.quote ∉ content) :
    Shields stop ⟨d, false⟩ (Symbol.quote :: content ++ [Symbol.quote]) := by
  rw [List.cons_append]
  refine ⟨fun hquote => hstop hquote.1.symm, ?_⟩
  show Shields stop ⟨d, true⟩ (content ++ [Symbol.quote])
  rw [shields_append, after_quoted h]
  exact ⟨shields_quoted h, fun hquote => hstop hquote.1.symm, trivial⟩

theorem balanced_literal {content : Text} (h : Symbol.quote ∉ content) :
    Balanced (Symbol.quote :: content ++ [Symbol.quote]) :=
  fun _ => ⟨after_literal h, shields_literal (by decide) h⟩

theorem uncut_literal {content : Text} (h : Symbol.quote ∉ content) :
    Uncut (Symbol.quote :: content ++ [Symbol.quote]) :=
  fun _ => shields_literal (by decide) h

/-- Brackets around a balanced text. -/
theorem Balanced.bracketed {inside : Text} (h : Balanced inside) :
    Balanced (Symbol.openBracket :: inside ++ [Symbol.closeBracket]) := by
  intro d
  obtain ⟨hafter, hshields⟩ := h (d + 1)
  have hopen : step ⟨d, false⟩ Symbol.openBracket = ⟨d + 1, false⟩ := rfl
  have hclose : step ⟨d + 1, false⟩ Symbol.closeBracket = ⟨d, false⟩ := rfl
  constructor
  · rw [List.cons_append, after_cons, hopen, after_append, hafter, after_cons, hclose, after_nil]
  · rw [List.cons_append, Shields, hopen, shields_append, hafter]
    exact ⟨fun heq => absurd heq.1 (by decide), hshields, by simp [isOutermost], trivial⟩

/-- In brackets no comma stands by itself, wherever the brackets are. -/
theorem uncut_bracketed {inside : Text} (h : ∀ d, Shields Symbol.comma ⟨d + 1, false⟩ inside) :
    Uncut (Symbol.openBracket :: inside ++ [Symbol.closeBracket]) := by
  intro d
  have hopen : step ⟨d, false⟩ Symbol.openBracket = ⟨d + 1, false⟩ := rfl
  rw [List.cons_append, Shields, hopen, shields_append]
  exact ⟨fun heq => absurd heq.1 (by decide), h d, fun heq => absurd heq.1 (by decide), trivial⟩

/-! ### Balanced texts with commas between them -/

theorem balanced_joinCommas {list : List Text} (h : ∀ text ∈ list, Balanced text) :
    Balanced (joinCommas list) := by
  have hcomma : Balanced [Symbol.comma] :=
    balanced_of_passive (by simp [IsPassive]; decide)
  induction list with
  | nil => exact balanced_nil
  | cons first others ih =>
    obtain ⟨hfirst, hothers⟩ := List.forall_mem_cons.1 h
    cases others with
    | nil => exact hfirst
    | cons next rest =>
      rw [joinCommas_cons_cons]
      exact hfirst.append (hcomma.append (ih hothers))

/-- The commas of a list do not stand by themselves within brackets. -/
theorem shields_joinCommas {list : List Text} (hbalanced : ∀ text ∈ list, Balanced text)
    (huncut : ∀ text ∈ list, Uncut text) (d : Nat) :
    Shields Symbol.comma ⟨d + 1, false⟩ (joinCommas list) := by
  induction list with
  | nil => trivial
  | cons first others ih =>
    obtain ⟨hfirst, hothers⟩ := List.forall_mem_cons.1 hbalanced
    obtain ⟨hfirst', hothers'⟩ := List.forall_mem_cons.1 huncut
    cases others with
    | nil => exact hfirst' (d + 1)
    | cons next rest =>
      rw [joinCommas_cons_cons, shields_append, (hfirst (d + 1)).1]
      refine ⟨hfirst' (d + 1), by simp [isOutermost], ?_⟩
      rw [step_passive (by simp [IsPassive]; decide)]
      exact ih hothers hothers'

/-- The bracket that closes a balanced text is the one after it. -/
theorem enclosed?_of_balanced {inside : Text} (h : Balanced inside) (rest : Text) :
    enclosed? (inside ++ Symbol.closeBracket :: rest) = some (inside, rest) := by
  obtain ⟨hafter, hshields⟩ := h 0
  show enclosed?.go ⟨0, false⟩ (inside ++ Symbol.closeBracket :: rest) = some (inside, rest)
  rw [enclosed?_go_append hshields, hafter]
  simp [enclosed?.go, isOutermost]

/-- Joined texts are cut where they were joined. -/
theorem pieces_joinCommas {first : Text} {others : List Text}
    (hbalanced : ∀ text ∈ first :: others, Balanced text)
    (huncut : ∀ text ∈ first :: others, Uncut text) :
    pieces .outermost (joinCommas (first :: others)) = (first, others) := by
  induction others generalizing first with
  | nil =>
    have h := pieces_append (huncut first List.mem_cons_self 0) []
    rw [List.append_nil] at h
    exact h.trans (by simp [pieces])
  | cons next rest ih =>
    obtain ⟨hfirst, hothers⟩ := List.forall_mem_cons.1 hbalanced
    obtain ⟨hfirst', hothers'⟩ := List.forall_mem_cons.1 huncut
    have hrest := ih hothers hothers'
    rw [joinCommas_cons_cons]
    show pieces ⟨0, false⟩ (first ++ Symbol.comma :: joinCommas (next :: rest)) =
      (first, next :: rest)
    rw [pieces_append (hfirst' 0), (hfirst 0).1]
    have hcomma : pieces ⟨0, false⟩ (Symbol.comma :: joinCommas (next :: rest)) =
        ([], next :: rest) := by
      have hstep : step ⟨0, false⟩ Symbol.comma = .outermost := rfl
      simp only [pieces, hstep, hrest]
      rfl
    rw [hcomma, List.append_nil]

/-- **Arguments.** The arguments in a list of balanced texts without commas of their own are those
texts, unless the list is blank. -/
theorem splitArguments_joinCommas {list : List Text} (hne : list ≠ [])
    (hblank : (joinCommas list).all Text.isBlank = false)
    (hbalanced : ∀ text ∈ list, Balanced text) (huncut : ∀ text ∈ list, Uncut text) :
    splitArguments (joinCommas list) = placed 0 list := by
  cases list with
  | nil => exact absurd rfl hne
  | cons first others =>
    rw [splitArguments_of_not_blank hblank, pieces_joinCommas hbalanced huncut]

end Assertions
