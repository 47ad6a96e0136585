import Assertions.Text

/-!
# Spans

A span is a half-open range of byte positions. Spans that readers of this library produce have
`start ≤ stop`; those that a caller makes up need not.
-/

namespace Assertions

/-- The positions from `start` up to, but not including, `stop`. -/
structure Span where
  start : Nat
  stop : Nat
deriving DecidableEq, Repr

namespace Span

/-- The span moved to the right by `offset` bytes. -/
def shift (span : Span) (offset : Nat) : Span := ⟨span.start + offset, span.stop + offset⟩

/-- Whether a span holds no position. -/
def isEmpty (span : Span) : Bool := span.stop ≤ span.start

/-- The text that a span marks, where both its ends are character boundaries. -/
def text? (span : Span) (source : Text) : Option Text := source.slice? span.start span.stop

end Span

end Assertions
