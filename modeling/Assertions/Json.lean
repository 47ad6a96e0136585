import Assertions.Dictionary
import Assertions.Number

/-!
# JSON documents

Models and states are JSON documents. A number in a document is an integer or a double, and the two
kinds stay apart: `1` and `1.0` are different documents. The members of an object are in increasing
order of their keys, so the order in which they were written does not matter.
-/

namespace Assertions

/-- A double that is a number: neither infinite nor `NaN`. -/
structure FiniteFloat where
  value : Float
  isFinite : value.isFinite = true

/-- A JSON document. -/
inductive Json where
  | null
  | bool (value : Bool)
  | integer (value : Int)
  | double (value : FiniteFloat)
  | string (value : Text)
  | array (items : List Json)
  | object (members : List (Text × Json))

namespace Json

/-- An object with members given in any order. Of two under one key the later one stays. -/
def ofMembers (members : List (Text × Json)) : Json :=
  .object (Dictionary.ofList members).entries

/-- The member of an object under a key. -/
def member? : Json → Text → Option Json
  | .object members, key => Dictionary.findValue? key members
  | _, _ => none

/-! ### Equality -/

mutual

/-- Whether two documents are equal: of one kind, with equal parts. The doubles `0.0` and `-0.0`
are equal, an integer and a double never are. -/
def equals : Json → Json → Bool
  | .null, .null => true
  | .bool a, .bool b => a == b
  | .integer a, .integer b => a == b
  | .double a, .double b => Number.compare? a.value b.value == some .eq
  | .string a, .string b => a == b
  | .array a, .array b => equalItems a b
  | .object a, .object b => equalMembers a b
  | _, _ => false

/-- Whether two lists of documents are equal, one by one. -/
def equalItems : List Json → List Json → Bool
  | [], [] => true
  | a :: as, b :: bs => equals a b && equalItems as bs
  | _, _ => false

/-- Whether two lists of members are equal, one by one. -/
def equalMembers : List (Text × Json) → List (Text × Json) → Bool
  | [], [] => true
  | (k, a) :: as, (l, b) :: bs => k == l && equals a b && equalMembers as bs
  | _, _ => false

end

end Json

end Assertions
