import Assertions.Span
import Assertions.Symbols
import Assertions.Text.Blank

/-!
# Condensed text

Expressions are read without the blanks outside their string literals. `condense` removes those
blanks, and `expandSpan` takes a span of the condensed text back to the text it came from.
-/

namespace Assertions

/-- Whether a text position lies in a literal once `c` has been read. -/
def quotedAfter (quoted : Bool) (c : Char) : Bool := if c == Symbol.quote then !quoted else quoted

/-- Whether condensing keeps `c`: it does unless `c` is a blank outside literals. A quote is kept,
since it is no blank. -/
def isKept (quoted : Bool) (c : Char) : Bool := quotedAfter quoted c || !Text.isBlank c

/-- The text without its blanks outside string literals. -/
def condense (text : Text) : Text :=
  go false text
where
  /-- The kept characters of a text that starts inside a literal or not. -/
  go (quoted : Bool) : Text → Text
    | [] => []
    | c :: rest =>
      if isKept quoted c then c :: go (quotedAfter quoted c) rest
      else go (quotedAfter quoted c) rest

/-- A character that condensing drops leaves a literal open or closed. -/
theorem quotedAfter_of_not_isKept {quoted : Bool} {c : Char} (h : ¬isKept quoted c = true) :
    quotedAfter quoted c = quoted := by
  by_cases hc : c = Symbol.quote
  · subst hc
    exact absurd (show isKept quoted Symbol.quote = true by cases quoted <;> decide) h
  · simp [quotedAfter, hc]

/-- Condensing keeps what it has kept. -/
theorem condense_go_condense_go (quoted : Bool) (text : Text) :
    condense.go quoted (condense.go quoted text) = condense.go quoted text := by
  induction text generalizing quoted with
  | nil => rfl
  | cons c rest ih =>
    simp only [condense.go]
    split
    · next hkept => simp only [condense.go, if_pos hkept, ih]
    · next hkept =>
      rw [quotedAfter_of_not_isKept hkept, ih]

/-- Condensed text has nothing more to lose. -/
theorem condense_condense (text : Text) : condense (condense text) = condense text :=
  condense_go_condense_go false text

/-! ### From the condensed text back to the source -/

/-- The position in `source` of the first kept character that is preceded by at least `target`
bytes of kept characters, or the end of `source`. -/
def expandStart (source : Text) (target : Nat) : Nat :=
  go false 0 0 source
where
  /-- The search at position `at'` of the source, with `kept` bytes kept before it. -/
  go (quoted : Bool) (at' kept : Nat) : Text → Nat
    | [] => at'
    | c :: rest =>
      if !isKept quoted c then go (quotedAfter quoted c) (at' + c.utf8Size) kept rest
      else if target ≤ kept then at'
      else go (quotedAfter quoted c) (at' + c.utf8Size) (kept + c.utf8Size) rest

/-- The position in `source` just after the first kept character with which the kept ones make up
at least `target` bytes, or the end of `source`. -/
def expandStop (source : Text) (target : Nat) : Nat :=
  go false 0 0 source
where
  /-- The search at position `at'` of the source, with `kept` bytes kept before it. -/
  go (quoted : Bool) (at' kept : Nat) : Text → Nat
    | [] => at'
    | c :: rest =>
      if !isKept quoted c then go (quotedAfter quoted c) (at' + c.utf8Size) kept rest
      else if target ≤ kept + c.utf8Size then at' + c.utf8Size
      else go (quotedAfter quoted c) (at' + c.utf8Size) (kept + c.utf8Size) rest

/-- The span of `source` that holds what `span` holds of the condensed text. An empty span goes to
an empty one, and no span to one that ends before it starts. -/
def expandSpan (source : Text) (span : Span) : Span :=
  let start := expandStart source span.start
  if span.isEmpty then ⟨start, start⟩ else ⟨start, max start (expandStop source span.stop)⟩

end Assertions
