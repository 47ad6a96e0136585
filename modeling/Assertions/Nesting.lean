import Assertions.Symbols

/-!
# Brackets and literals

Reading a text from the left, `Nesting` records how many brackets are open and whether a literal
is. Brackets inside literals do not count. `enclosed?` uses it to cut off the text up to the
bracket that closes one already open.
-/

namespace Assertions

/-- What encloses a position of a text. -/
structure Nesting where
  /-- The brackets that are open. -/
  depth : Nat
  /-- Whether a literal is open. -/
  quoted : Bool
deriving DecidableEq, Repr

namespace Nesting

/-- Nothing encloses the start of a text. -/
def outermost : Nesting := ⟨0, false⟩

/-- Whether a character at this position stands by itself, in no bracket and no literal. -/
def isOutermost (n : Nesting) : Bool := n.depth == 0 && !n.quoted

/-- What encloses the position after `c`. A bracket that closes none is passed over. -/
def step (n : Nesting) (c : Char) : Nesting :=
  if c == Symbol.quote then { n with quoted := !n.quoted }
  else if n.quoted then n
  else if c == Symbol.openBracket then { n with depth := n.depth + 1 }
  else if c == Symbol.closeBracket then { n with depth := n.depth - 1 }
  else n

end Nesting

/-- The text up to the bracket that closes the one which `text` follows, and the text after that
bracket. There is none if the brackets of `text` do not balance or a literal is left open. -/
def enclosed? (text : Text) : Option (Text × Text) :=
  go .outermost text
where
  /-- The search from a position with the given nesting, counted from the start. -/
  go (n : Nesting) : Text → Option (Text × Text)
    | [] => none
    | c :: rest =>
      if c == Symbol.closeBracket && n.isOutermost then some ([], rest)
      else (go (n.step c) rest).map fun (inside, after) => (c :: inside, after)

/-- What `enclosed?` finds is the text that was there. -/
theorem eq_of_enclosed?_go {n : Nesting} {text inside after : Text}
    (h : enclosed?.go n text = some (inside, after)) :
    text = inside ++ Symbol.closeBracket :: after := by
  induction text generalizing n inside with
  | nil => simp [enclosed?.go] at h
  | cons c rest ih =>
    simp only [enclosed?.go] at h
    split at h
    · next hc =>
      simp only [Option.some.injEq, Prod.mk.injEq] at h
      obtain ⟨rfl, rfl⟩ := h
      simp only [Bool.and_eq_true, beq_iff_eq] at hc
      simp [hc.1]
    · simp only [Option.map_eq_some_iff, Prod.mk.injEq, Prod.exists] at h
      obtain ⟨inside', after', hrest, rfl, rfl⟩ := h
      simp [ih hrest]

theorem eq_of_enclosed? {text inside after : Text} (h : enclosed? text = some (inside, after)) :
    text = inside ++ Symbol.closeBracket :: after :=
  eq_of_enclosed?_go h

/-- The position of the bracket that closes the one at position `index`, if there is an opening
bracket at that position and a bracket closes it. -/
def closingBracket? (text : Text) (index : Nat) : Option Nat :=
  match text.dropBytes? index with
  | some (c :: rest) =>
    if c == Symbol.openBracket then
      (enclosed? rest).map fun (inside, _) => index + c.utf8Size + Text.size inside
    else none
  | _ => none

/-- What closes a bracket depends on the text behind it alone. -/
theorem closingBracket?_append (before rest : Text) :
    closingBracket? (before ++ Symbol.openBracket :: rest) (Text.size before) =
      (enclosed? rest).map fun found => Text.size before + 1 + Text.size found.1 := by
  rw [closingBracket?, Text.dropBytes?_append]
  rfl

end Assertions
