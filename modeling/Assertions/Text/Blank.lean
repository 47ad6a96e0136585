import Assertions.Text

/-!
# Blank characters

The characters with the Unicode property `White_Space`. There are twenty-five of them, and they
lie in ten ranges.
-/

namespace Assertions.Text

/-- The code points with the property `White_Space`, as ranges with both ends included. -/
def blankRanges : List (Nat × Nat) :=
  [(0x9, 0xD), (0x20, 0x20), (0x85, 0x85), (0xA0, 0xA0), (0x1680, 0x1680), (0x2000, 0x200A),
   (0x2028, 0x2029), (0x202F, 0x202F), (0x205F, 0x205F), (0x3000, 0x3000)]

/-- A blank separates words and carries no meaning of its own. -/
def isBlank (c : Char) : Bool :=
  blankRanges.any fun (low, high) => low ≤ c.toNat && c.toNat ≤ high

/-- How many code points the table lists. -/
example : (blankRanges.map fun (low, high) => high + 1 - low).sum = 25 := by decide

end Assertions.Text
