import Assertions.Symbols

/-!
# Paths

A path is a list of segments. The path without segments denotes a whole document. Its text joins
the segments with dots, and `Path.ofText` cuts a text at its dots.
-/

namespace Assertions

/-- A dotted path into a document. -/
structure Path where
  segments : List Text
deriving DecidableEq, Repr

namespace Path

/-- The path of the whole document. -/
def root : Path := ⟨[]⟩

/-- Whether a path denotes the whole document. -/
def isRoot (path : Path) : Bool := path.segments.isEmpty

/-- The segments of a text: the part before its first dot, and those after it. -/
def splitDots : Text → Text × List Text
  | [] => ([], [])
  | c :: rest =>
    let (first, others) := splitDots rest
    if c == Symbol.dot then ([], first :: others) else (c :: first, others)

/-- The path that a text denotes. The empty text denotes the root, and any other text has one
segment more than it has dots. -/
def ofText (text : Text) : Path :=
  if text.isEmpty then root
  else
    let (first, others) := splitDots text
    ⟨first :: others⟩

/-- Segments with dots between them. -/
def joinDots : List Text → Text
  | [] => []
  | [segment] => segment
  | segment :: others => segment ++ Symbol.dot :: joinDots others

/-- The text of a path. -/
def toText (path : Path) : Text := joinDots path.segments

end Path

end Assertions
