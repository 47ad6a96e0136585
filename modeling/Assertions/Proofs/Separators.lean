import Assertions.Literal
import Assertions.Proofs.Origin

/-!
# Separators and literals

A text `Seals` a character if it has that character only inside literals, and closes all of them.
Then the search for a separator goes past the text in one step, and a separator behind it is the
first one (`splitOutside?_of_seals`).

No expression has a colon outside its literals, so the text of an expression seals the separator of
assertions (`seals_of_ofText`).
-/

namespace Assertions

namespace Literal

/-- Whether a character stands in a text only inside literals, where the text starts inside one or
not. -/
def Hides (target : Char) : (quoted : Bool) → Text → Prop
  | _, [] => True
  | quoted, c :: rest => (c = target → quoted = true) ∧ Hides target (quotedAfter quoted c) rest

variable {target : Char} {quoted : Bool} {a b text : Text}

theorem hides_append :
    Hides target quoted (a ++ b) ↔
      Hides target quoted a ∧ Hides target (quotedThrough quoted a) b := by
  induction a generalizing quoted with
  | nil => simp [Hides]
  | cons c rest ih => simp only [List.cons_append, Hides, ih, quotedThrough_cons, and_assoc]

theorem hides_of_not_mem (h : target ∉ text) : Hides target quoted text := by
  induction text generalizing quoted with
  | nil => trivial
  | cons c rest ih =>
    simp only [List.mem_cons, not_or] at h
    exact ⟨fun hc => absurd hc.symm h.1, ih h.2⟩

/-- Inside a literal everything is hidden. -/
theorem hides_quoted (h : Symbol.quote ∉ text) : Hides target true text := by
  induction text with
  | nil => trivial
  | cons c rest ih =>
    simp only [List.mem_cons, not_or] at h
    have hafter : quotedAfter true c = true := by simp [quotedAfter, Ne.symm h.1]
    refine ⟨fun _ => rfl, ?_⟩
    rw [hafter]
    exact ih h.2

/-- What is hidden without the loose blanks is hidden with them. -/
theorem hides_of_condense (htarget : Text.isBlank target = false)
    (h : Hides target quoted (condense.go quoted text)) : Hides target quoted text := by
  induction text generalizing quoted with
  | nil => trivial
  | cons c rest ih =>
    rw [condense.go] at h
    split at h
    · exact ⟨h.1, ih h.2⟩
    · rename_i hkept
      refine ⟨?_, ih (by rwa [quotedAfter_of_not_isKept hkept] at h ⊢)⟩
      rintro rfl
      simp [isKept, htarget] at hkept

/-- The search for a separator goes past a text that hides it. -/
theorem splitOutside?_go_append (h : Hides target quoted a) (b : Text) :
    splitOutside?.go target quoted (a ++ b) =
      (splitOutside?.go target (quotedThrough quoted a) b).map
        fun (before, after) => (a ++ before, after) := by
  induction a generalizing quoted with
  | nil => simp
  | cons c rest ih =>
    have hc : ¬(c == target && c != Symbol.quote && !quoted) = true := by
      simp only [Bool.and_eq_true, beq_iff_eq, Bool.not_eq_true', not_and, Bool.not_eq_false]
      exact fun heq => h.1 heq.1
    rw [List.cons_append, splitOutside?.go, if_neg hc]
    show (splitOutside?.go target (quotedAfter quoted c) (rest ++ b)).map _ = _
    rw [ih h.2, Option.map_map, quotedThrough_cons]
    rfl

/-- No literal is open where a separator is found. -/
theorem quotedThrough_of_splitOutside?_go {before after : Text}
    (h : splitOutside?.go target quoted text = some (before, after)) :
    quotedThrough quoted before = false := by
  induction text generalizing quoted before with
  | nil => cases h
  | cons c rest ih =>
    simp only [splitOutside?.go] at h
    split at h
    · rename_i hc
      cases h
      simp only [Bool.and_eq_true, Bool.not_eq_true'] at hc
      exact hc.2
    · simp only [Option.map_eq_some_iff, Prod.mk.injEq, Prod.exists] at h
      obtain ⟨before', after', hrest, rfl, rfl⟩ := h
      rw [quotedThrough_cons]
      exact ih hrest

/-- A text with a character only inside literals, none of which is left open. -/
structure Seals (target : Char) (text : Text) : Prop where
  hides : Hides target false text
  closed : quotedThrough false text = false

/-- The first separator outside literals is the one behind a text that seals it. -/
theorem splitOutside?_of_seals (htarget : target ≠ Symbol.quote) (h : Seals target a) (b : Text) :
    splitOutside? target (a ++ target :: b) = some (a, b) := by
  have hgo : splitOutside?.go target false (target :: b) = some ([], b) := by
    simp [splitOutside?.go, htarget]
  rw [splitOutside?, splitOutside?_go_append h.hides, h.closed, hgo]
  simp

namespace Seals

theorem append (ha : Seals target a) (hb : Seals target b) : Seals target (a ++ b) := by
  constructor
  · rw [hides_append, ha.closed]
    exact ⟨ha.hides, hb.hides⟩
  · rw [quotedThrough_append, ha.closed, hb.closed]

theorem of_not_mem (h : target ∉ text) (hquote : Symbol.quote ∉ text) : Seals target text :=
  ⟨hides_of_not_mem h, quotedThrough_eq_of_not_mem hquote⟩

/-- A text whose characters are all of a class that has neither the character nor quotes. -/
theorem of_forall {p : Char → Bool} (h : ∀ c ∈ text, p c = true) (htarget : p target = false)
    (hquote : p Symbol.quote = false) : Seals target text := by
  refine of_not_mem ?_ ?_
  · intro hmem
    rw [h _ hmem] at htarget
    cases htarget
  · intro hmem
    rw [h _ hmem] at hquote
    cases hquote

theorem literal (htarget : target ≠ Symbol.quote) {content : Text}
    (h : Symbol.quote ∉ content) : Seals target (Symbol.quote :: content ++ [Symbol.quote]) := by
  have hopen : quotedAfter false Symbol.quote = true := rfl
  have hclose : quotedThrough true [Symbol.quote] = false := rfl
  rw [List.cons_append]
  constructor
  · refine ⟨fun heq => absurd heq.symm htarget, ?_⟩
    rw [hopen, hides_append, quotedThrough_eq_of_not_mem h]
    exact ⟨hides_quoted h, fun heq => absurd heq.symm htarget, trivial⟩
  · rw [quotedThrough_cons, hopen, quotedThrough_append, quotedThrough_eq_of_not_mem h, hclose]

theorem joinCommas (htarget : target ≠ Symbol.comma) {list : List Text}
    (h : ∀ text ∈ list, Seals target text) : Seals target (joinCommas list) := by
  have hcomma : Seals target [Symbol.comma] := of_not_mem (by simpa using htarget) (by decide)
  induction list with
  | nil => exact ⟨trivial, rfl⟩
  | cons first others ih =>
    obtain ⟨hfirst, hothers⟩ := List.forall_mem_cons.1 h
    cases others with
    | nil => exact hfirst
    | cons next rest =>
      rw [joinCommas_cons_cons]
      exact hfirst.append (hcomma.append (ih hothers))

theorem of_condense (htarget : Text.isBlank target = false) (h : Seals target (condense text)) :
    Seals target text := by
  refine ⟨hides_of_condense htarget h.hides, ?_⟩
  rw [← quotedThrough_condense_go]
  exact h.closed

end Seals

end Literal

/-! ### Expressions -/

theorem Operator.seals_colon_spelling (op : Operator) :
    Literal.Seals Symbol.colon op.spelling := by
  cases op <;> exact .of_not_mem (by decide) (by decide)

theorem seals_colon_of_isIdentifier {name : Text} (h : isIdentifier name = true) :
    Literal.Seals Symbol.colon name :=
  .of_forall (fun _ => isWordChar_of_mem_name h) (by decide) (by decide)

/-- Brackets around a text that has no colon outside literals. -/
theorem Literal.Seals.bracketed {inside : Text} (h : Literal.Seals Symbol.colon inside) :
    Literal.Seals Symbol.colon (Symbol.openBracket :: inside ++ [Symbol.closeBracket]) := by
  have hopen : Literal.Seals Symbol.colon [Symbol.openBracket] :=
    .of_not_mem (by decide) (by decide)
  exact (hopen.append h).append (.of_not_mem (by decide) (by decide))

/-- The text of a phrase has no colon outside literals. -/
theorem Phrase.IsSpelled.seals_colon {names : Text → Bool} {p : Phrase} (h : p.IsSpelled names) :
    Literal.Seals Symbol.colon p.text := by
  induction h with
  | ref side hpath =>
    have hside : Literal.Seals Symbol.colon [side.symbol] := by
      cases side <;> exact .of_not_mem (by decide) (by decide)
    exact hside.append (.of_forall (Path.isPathChar_of_mem_toText hpath) (by decide) (by decide))
  | string hquote => exact .literal (by decide) hquote
  | number sign hdigits =>
    have hseals : Literal.Seals Symbol.colon _ :=
      .of_forall hdigits.isNumberChar (by decide) (by decide)
    cases sign with
    | none => exact hseals
    | some sign => exact sign.operator.seals_colon_spelling.append hseals
  | statement hname => exact seals_colon_of_isIdentifier hname
  | call hname _ _ _ ih =>
    rw [text, texts_eq_map, List.append_assoc]
    exact (seals_colon_of_isIdentifier hname).append
      (Literal.Seals.joinCommas (by decide) (List.forall_mem_map.2 ih)).bracketed
  | binary op _ _ ihl ihr => exact (ihl.append op.seals_colon_spelling).append ihr
  | group _ ih => exact ih.bracketed

/-- A text that is read as an expression has no colon outside literals, and closes them. -/
theorem seals_of_ofText {names : Text → Bool} {source : Text} {e : Expr}
    (h : Expr.ofText names source = .ok e) : Literal.Seals Symbol.colon source := by
  obtain ⟨p, hp, htext, -⟩ := exists_phrase_of_ofText h
  have hseals := hp.spelled.seals_colon
  rw [htext] at hseals
  exact hseals.of_condense (by decide)

end Assertions
