import Assertions.Nesting
import Assertions.Text.Blank

/-!
# Arguments of a call

The text between the brackets of a call is cut at the commas that stand in no inner bracket and no
literal. `pieces` makes the cuts, `joinCommas` undoes them, and `splitArguments` also says where
each piece starts.
-/

namespace Assertions

/-- The first piece of a text and the others, cut at the outermost commas. -/
def pieces (n : Nesting) : Text → Text × List Text
  | [] => ([], [])
  | c :: rest =>
    let (first, others) := pieces (n.step c) rest
    if c == Symbol.comma && n.isOutermost then ([], first :: others) else (c :: first, others)

/-- Pieces with commas between them. -/
def joinCommas : List Text → Text
  | [] => []
  | [piece] => piece
  | piece :: others => piece ++ Symbol.comma :: joinCommas others

@[simp] theorem joinCommas_cons_cons (piece next : Text) (others : List Text) :
    joinCommas (piece :: next :: others) = piece ++ Symbol.comma :: joinCommas (next :: others) :=
  rfl

/-- Joining a list whose first piece starts with `c`. -/
theorem joinCommas_cons_char (c : Char) (piece : Text) (others : List Text) :
    joinCommas ((c :: piece) :: others) = c :: joinCommas (piece :: others) := by
  cases others <;> rfl

/-- The pieces of an argument list with commas between them are that list. -/
theorem joinCommas_pieces (n : Nesting) (text : Text) :
    joinCommas ((pieces n text).1 :: (pieces n text).2) = text := by
  induction text generalizing n with
  | nil => rfl
  | cons c rest ih =>
    simp only [pieces]
    split
    · next hcut =>
      simp only [Bool.and_eq_true, beq_iff_eq] at hcut
      rw [joinCommas_cons_cons, ih, hcut.1, List.nil_append]
    · rw [joinCommas_cons_char, ih]

/-- Pieces that are one separator byte apart, each with its position. -/
def placed (start : Nat) : List Text → List (Nat × Text)
  | [] => []
  | piece :: others => (start, piece) :: placed (start + Text.size piece + 1) others

/-- The arguments in an argument list, each with its position in the list. A list of blanks holds
no argument, and any other holds one more than it has outermost commas. -/
def splitArguments (text : Text) : List (Nat × Text) :=
  if text.all Text.isBlank then []
  else
    let (first, others) := pieces .outermost text
    placed 0 (first :: others)

/-- A list that is not blank is cut into its pieces. -/
theorem splitArguments_of_not_blank {text : Text} (h : text.all Text.isBlank = false) :
    splitArguments text = placed 0 ((pieces .outermost text).1 :: (pieces .outermost text).2) := by
  rw [splitArguments, h]
  rfl

end Assertions
