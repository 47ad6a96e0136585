import Assertions.Symbols

/-!
# String literals in a text

A literal runs from a quote to the next quote. Two ways to tell whether a position lies in one:

* `quotesFrom` and `isWithin` count the quotes that follow it, and an odd number of them means
  that one closes a literal around it;
* `splitOutside?` and `findOutside?` read from the left and switch at each quote, so a literal that
  is never closed hides nothing before it.
-/

namespace Assertions.Literal

/-- The number of quotes at byte positions `from'` and later. -/
def quotesFrom (from' : Nat) : Text → Nat
  | [] => 0
  | c :: rest =>
    (if c == Symbol.quote && from' == 0 then 1 else 0) + quotesFrom (from' - c.utf8Size) rest

/-- Whether a literal reaches over the byte at `index`: the quotes after it are odd in number. -/
def isWithin (text : Text) (index : Nat) : Bool := quotesFrom (index + 1) text % 2 == 1

/-- The text before the first `target` outside literals, and the text after it. A quote is never
such a target, because it is read as a delimiter. -/
def splitOutside? (target : Char) (text : Text) : Option (Text × Text) :=
  go false text
where
  /-- The cut of a text that starts inside a literal or not. -/
  go (quoted : Bool) : Text → Option (Text × Text)
    | [] => none
    | c :: rest =>
      if c == target && c != Symbol.quote && !quoted then some ([], rest)
      else
        (go (if c == Symbol.quote then !quoted else quoted) rest).map fun (before, after) =>
          (c :: before, after)

/-- The position of the first `target` outside literals. -/
def findOutside? (text : Text) (target : Char) : Option Nat :=
  (splitOutside? target text).map fun (before, _) => Text.size before

/-- A cut loses nothing but the target. -/
theorem eq_of_splitOutside?_go {target : Char} {quoted : Bool} {text before after : Text}
    (h : splitOutside?.go target quoted text = some (before, after)) :
    text = before ++ target :: after := by
  induction text generalizing quoted before with
  | nil => simp [splitOutside?.go] at h
  | cons c rest ih =>
    simp only [splitOutside?.go] at h
    split at h
    · next hc =>
      simp only [Option.some.injEq, Prod.mk.injEq] at h
      obtain ⟨rfl, rfl⟩ := h
      simp only [Bool.and_eq_true, beq_iff_eq] at hc
      simp [hc.1.1]
    · simp only [Option.map_eq_some_iff, Prod.mk.injEq, Prod.exists] at h
      obtain ⟨before', after', hrest, rfl, rfl⟩ := h
      simp [ih hrest]

/-- The text up to the first quote and the text after it. -/
def splitAtQuote? : Text → Option (Text × Text)
  | [] => none
  | c :: rest =>
    if c == Symbol.quote then some ([], rest)
    else (splitAtQuote? rest).map fun (inside, after) => (c :: inside, after)

/-- What a reader of the rest of a literal finds is the text that was there. -/
theorem eq_of_splitAtQuote? {text inside after : Text}
    (h : splitAtQuote? text = some (inside, after)) :
    text = inside ++ Symbol.quote :: after := by
  induction text generalizing inside with
  | nil => simp [splitAtQuote?] at h
  | cons c rest ih =>
    simp only [splitAtQuote?] at h
    split at h
    · next hc =>
      simp only [Option.some.injEq, Prod.mk.injEq] at h
      obtain ⟨rfl, rfl⟩ := h
      simp [beq_iff_eq.1 hc]
    · simp only [Option.map_eq_some_iff, Prod.mk.injEq, Prod.exists] at h
      obtain ⟨inside', after', hrest, rfl, rfl⟩ := h
      simp [ih hrest]

end Assertions.Literal
