import Assertions.Expr.Reading

/-!
# Reading expressions one after another

A `Cursor` stands in a list of tokens and reads one expression at a time. It can go on after an
error, from the token at which reading stopped, and the number of brackets around it is then what
it was before.
-/

namespace Assertions

/-- A place in a list of tokens. -/
structure Cursor where
  /-- The names that are functions, for the arguments of calls. -/
  names : Text → Bool
  /-- The brackets and calls around the tokens. -/
  depth : Nat
  /-- The position after the last token of the list. -/
  stop : Nat
  /-- The tokens that have not been read. -/
  rest : List PlacedToken

namespace Cursor

/-- The start of a list of tokens, inside `depth` brackets and calls. -/
def start (names : Text → Bool) (depth : Nat) (tokens : List PlacedToken) : Cursor :=
  ⟨names, depth, endOf tokens, tokens⟩

/-- Whether all tokens have been read. -/
def atEnd (cursor : Cursor) : Bool := cursor.rest.isEmpty

/-- What the reader of expressions finds at the cursor. -/
def outcome (cursor : Cursor) : Outcome Expr cursor.rest.tail :=
  expression (operand cursor.names (roomAt cursor.depth) cursor.stop) cursor.rest

/-- The expression at the cursor, and the place after it. -/
def next (cursor : Cursor) : Except Fault Expr × Cursor :=
  (cursor.outcome.result, { cursor with rest := cursor.outcome.rest })

/-- Reading moves on by a token at least. -/
theorem length_next_le (cursor : Cursor) :
    cursor.next.2.rest.length ≤ cursor.rest.length - 1 := by
  have h := cursor.outcome.isSuffix.length_le
  rwa [List.length_tail] at h

/-- The results of reading up to the end of the tokens, one at least, each with the cursor after
it. -/
def readAll (cursor : Cursor) : List (Except Fault Expr × Cursor) :=
  if cursor.next.2.atEnd then [cursor.next] else cursor.next :: readAll cursor.next.2
termination_by cursor.rest.length
decreasing_by
  have hle := length_next_le cursor
  have hpos : 0 < cursor.next.2.rest.length := by
    rw [List.length_pos_iff]
    simpa [atEnd] using ‹¬cursor.next.2.atEnd = true›
  omega

end Cursor

end Assertions
