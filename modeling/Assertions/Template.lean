import Assertions.Nesting.CallSite
import Assertions.Text.Blank
import Assertions.Token.Reading

/-!
# Message templates

A template is free text with references in it: paths into the model and the state, names of
functions, and calls. Reading a template cuts it into pieces, each of which is plain text or a
reference, and the pieces put together give the template back.

First the template is cut into words at its blanks, except those inside the brackets of a call.
A word that starts with a registered name refers to that function and to nothing else; in any other
word every path counts.
-/

namespace Assertions

/-- What a reference of a template refers to. -/
inductive Referent where
  /-- A path into the model or the state. -/
  | path (side : Side) (path : Path)
  /-- A function without brackets. -/
  | statement (name : Text)
  /-- A call, which is read when it is needed. -/
  | call
deriving DecidableEq

/-- A reference and its text in the template. -/
structure Reference where
  referent : Referent
  text : Text
deriving DecidableEq

/-- A part of a template. -/
inductive Piece where
  | plain (text : Text)
  | reference (reference : Reference)

/-- The text of a piece in the template. -/
def Piece.text : Piece → Text
  | .plain text => text
  | .reference r => r.text

namespace Template

/-! ### Words -/

/-- A word of a template, or a blank between words. -/
inductive Segment where
  | gap (c : Char)
  | word (text : Text)

/-- The text of a segment. -/
def Segment.text : Segment → Text
  | .gap c => [c]
  | .word text => text

/-- Whether a character separates words, given the text before it, nearest character first, and the
text that it starts. -/
def isGap (before : Text) (c : Char) (rest : Text) : Bool :=
  Text.isBlank c && !isWithinCallFrom (Text.size before) 0 before (c :: rest)

/-- A character put in front of segments: it joins the word that they start with. -/
def joinWord (c : Char) : List Segment → List Segment
  | .word text :: others => .word (c :: text) :: others
  | segments => .word [c] :: segments

/-- The words of a text and the blanks between them, given the text before it, nearest character
first. -/
def segments (before : Text) : Text → List Segment
  | [] => []
  | c :: rest =>
    if isGap before c rest then .gap c :: segments (c :: before) rest
    else joinWord c (segments (c :: before) rest)

/-- A character in front of segments comes before their text. -/
theorem text_joinWord (c : Char) (list : List Segment) :
    (joinWord c list).flatMap Segment.text = c :: list.flatMap Segment.text := by
  unfold joinWord
  split <;> simp [Segment.text]

/-- The segments of a text put together are that text. -/
theorem text_segments (before text : Text) :
    (segments before text).flatMap Segment.text = text := by
  induction text generalizing before with
  | nil => rfl
  | cons c rest ih =>
    simp only [segments]
    split
    · simp [Segment.text, ih]
    · rw [text_joinWord, ih]

/-! ### References in a word -/

/-- The longest path at the start of a text, and the text after it. A dot belongs to a path if a
word character follows it. -/
def splitPath : Text → Text × Text
  | [] => ([], [])
  | c :: rest =>
    if isWordChar c || (c == Symbol.dot && rest.head?.any isWordChar) then
      let (path, after) := splitPath rest
      (c :: path, after)
    else ([], c :: rest)

/-- A path and what follows it are the text. -/
theorem append_splitPath (text : Text) : (splitPath text).1 ++ (splitPath text).2 = text := by
  induction text with
  | nil => rfl
  | cons c rest ih =>
    simp only [splitPath]
    split
    · simp [ih]
    · rfl

theorem length_splitPath_le (text : Text) : (splitPath text).2.length ≤ text.length := by
  induction text with
  | nil => simp [splitPath]
  | cons c rest ih =>
    simp only [splitPath]
    split
    · simp only [List.length_cons]
      omega
    · simp

/-- The side whose references a character starts. -/
def sideOf? (c : Char) : Option Side :=
  if c == Symbol.model then some .model
  else if c == Symbol.state then some .state
  else none

/-- The paths in a text, and the plain text between them. -/
def paths : Text → List Piece
  | [] => []
  | c :: rest =>
    match sideOf? c, rest.head?.any isWordChar with
    | some side, true =>
      let path := (splitPath rest).1
      .reference ⟨.path side (.ofText path), c :: path⟩ :: paths (splitPath rest).2
    | _, _ => .plain [c] :: paths rest
termination_by text => text.length
decreasing_by
  · have := length_splitPath_le rest
    simp only [List.length_cons]
    omega
  · simp

/-- The pieces of a text without names put together are that text. -/
theorem text_paths (text : Text) : (paths text).flatMap Piece.text = text := by
  fun_induction paths text with
  | case1 => rfl
  | case2 c rest side _ _ path ih =>
    simp only [List.flatMap_cons, Piece.text, ih, List.cons_append]
    exact congrArg _ (append_splitPath rest)
  | case3 c rest _ ih => simp [Piece.text, ih]

/-- The pieces of a word at position `offset`. -/
def readWord (names : Text → Bool) (offset : Nat) (word : Text) : Except Fault (List Piece) :=
  let name := word.takeWhile isWordChar
  if isIdentifier name && names name then
    match word.dropWhile isWordChar with
    | [] => .ok [.reference ⟨.statement name, name⟩]
    | c :: rest =>
      if c == Symbol.openBracket then
        match enclosed? rest with
        | none =>
          let opening := offset + Text.size name
          .error ⟨.openCall name, ⟨opening, opening + 1⟩⟩
        | some (args, after) =>
          let text := name ++ Symbol.openBracket :: args ++ [Symbol.closeBracket]
          .ok [.reference ⟨.call, text⟩, .plain after]
      else .ok [.reference ⟨.statement name, name⟩, .plain (c :: rest)]
  else .ok (paths word)

/-- The pieces of a word put together are that word. -/
theorem text_readWord {names : Text → Bool} {offset : Nat} {word : Text} {found : List Piece}
    (h : readWord names offset word = .ok found) : found.flatMap Piece.text = word := by
  have hword : word = word.takeWhile isWordChar ++ word.dropWhile isWordChar := by simp
  simp only [readWord] at h
  split at h
  · split at h
    · next hrest =>
      rw [hrest, List.append_nil] at hword
      cases h
      simpa [Piece.text] using hword.symm
    · next c rest hrest =>
      rw [hrest] at hword
      split at h
      · next hc =>
        split at h
        · exact nomatch h
        · next args after hclose =>
          cases h
          rw [eq_of_enclosed? hclose, beq_iff_eq.1 hc] at hword
          simpa [Piece.text] using hword.symm
      · cases h
        simpa [Piece.text] using hword.symm
  · cases h
    exact text_paths word

/-! ### Templates -/

/-- The pieces of a segment at position `offset`. -/
def readSegment (names : Text → Bool) (offset : Nat) : Segment → Except Fault (List Piece)
  | .gap c => .ok [.plain [c]]
  | .word text => readWord names offset text

/-- The pieces of segments at position `offset`. The first fault counts. -/
def readSegments (names : Text → Bool) (offset : Nat) :
    List Segment → Except Fault (List Piece)
  | [] => .ok []
  | segment :: others =>
    match readSegment names offset segment with
    | .error fault => .error fault
    | .ok pieces =>
      match readSegments names (offset + Text.size segment.text) others with
      | .error fault => .error fault
      | .ok more => .ok (pieces ++ more)

/-- The pieces of segments put together are the text of the segments. -/
theorem text_readSegments {names : Text → Bool} {offset : Nat} {list : List Segment}
    {found : List Piece} (h : readSegments names offset list = .ok found) :
    found.flatMap Piece.text = list.flatMap Segment.text := by
  induction list generalizing offset found with
  | nil =>
    cases h
    rfl
  | cons segment others ih =>
    simp only [readSegments] at h
    split at h
    · exact nomatch h
    · next here hhere =>
      split at h
      · exact nomatch h
      · next more hmore =>
        cases h
        rw [List.flatMap_append, ih hmore, List.flatMap_cons]
        congr 1
        cases segment with
        | gap c =>
          cases hhere
          rfl
        | word text => exact text_readWord hhere

/-- The pieces of a template. -/
def read (names : Text → Bool) (template : Text) : Except Fault (List Piece) :=
  readSegments names 0 (segments [] template)

/-- The pieces of a template put together are that template. -/
theorem text_read {names : Text → Bool} {template : Text} {found : List Piece}
    (h : read names template = .ok found) : found.flatMap Piece.text = template :=
  (text_readSegments h).trans (text_segments [] template)

/-- The references among pieces at position `offset`, each with its span in the template. -/
def placedReferences (offset : Nat) : List Piece → List (Span × Reference)
  | [] => []
  | .plain text :: others => placedReferences (offset + Text.size text) others
  | .reference reference :: others =>
    let stop := offset + Text.size reference.text
    (⟨offset, stop⟩, reference) :: placedReferences stop others

/-- The references of a template, in order, each with its span. -/
def references (names : Text → Bool) (template : Text) :
    Except Fault (List (Span × Reference)) :=
  match read names template with
  | .error fault => .error fault
  | .ok pieces => .ok (placedReferences 0 pieces)

end Template

end Assertions
