import Assertions.Nesting

/-!
# Positions inside a call

A message is free text in which some brackets belong to calls. `isWithinCall` finds out whether a
position lies between the brackets of one: it walks to the left, past everything that is closed
again before the position, to the nearest open bracket that directly follows a word, and asks
whether that bracket is closed after the position.
-/

namespace Assertions

/-- Whether a bracket directly follows a word, given the text before it, nearest character
first. -/
def followsWord : Text → Bool
  | [] => false
  | c :: _ => isWordChar c

/-- The walk to the left from `index`. `before` is the text still to the left, nearest character
first, `after` the text passed and all that follows it, and `closed` the number of brackets passed
that are closed again before `index`. -/
def isWithinCallFrom (index closed : Nat) : (before after : Text) → Bool
  | [], _ => false
  | c :: before, after =>
    if c == Symbol.closeBracket then isWithinCallFrom index (closed + 1) before (c :: after)
    else if c == Symbol.openBracket then
      match closed with
      | closed + 1 => isWithinCallFrom index closed before (c :: after)
      | 0 =>
        if followsWord before then
          (enclosed? after).any fun (inside, _) =>
            index < Text.size before + c.utf8Size + Text.size inside
        else isWithinCallFrom index 0 before (c :: after)
    else isWithinCallFrom index closed before (c :: after)

/-- Whether `index` lies between the brackets of a call. -/
def isWithinCall (text : Text) (index : Nat) : Bool :=
  let (before, after) := Text.splitBefore index text
  isWithinCallFrom index 0 before after

end Assertions
