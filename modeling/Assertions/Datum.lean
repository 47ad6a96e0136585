import Assertions.Json.Compact

/-!
# Data

What an expression evaluates to. A datum is the result of a look-up, of a function or of an
operator. Arrays and objects of a document are data as they stand; the language never looks inside
them except by a path. `missing` is the datum of everything that cannot be found or computed.
-/

namespace Assertions

/-- The result of evaluating an expression. -/
inductive Datum where
  /-- Nothing was found. -/
  | missing
  | null
  | bool (value : Bool)
  | number (value : Float)
  | string (value : Text)
  | array (items : List Json)
  | object (members : List (Text × Json))

namespace Datum

/-- The datum of a document. Integers become the nearest doubles. -/
def ofJson : Json → Datum
  | .null => .null
  | .bool value => .bool value
  | .integer value => .number (Number.ofInteger value)
  | .double value => .number value.value
  | .string value => .string value
  | .array items => .array items
  | .object members => .object members

/-- The integers that a document holds as integers when they come from data. -/
def isWritableInteger (i : Int) : Bool := i.natAbs < Nat.pow 2 63

/-- The document of a number. An integral number below `2 ^ 63` in magnitude becomes an integer,
and what is not a finite number becomes null. -/
def numberToJson (x : Float) : Json :=
  match Number.toInteger? x with
  | some i => if isWritableInteger i then .integer i else ofDouble
  | none => ofDouble
where
  /-- The document that holds `x` as a double. -/
  ofDouble : Json := if h : x.isFinite = true then .double ⟨x, h⟩ else .null

/-- The document of a datum. What is missing becomes null. -/
def toJson : Datum → Json
  | .missing | .null => .null
  | .bool value => .bool value
  | .number value => numberToJson value
  | .string value => .string value
  | .array items => .array items
  | .object members => .object members

/-- Whether a datum is `missing`. -/
def isMissing : Datum → Bool
  | .missing => true
  | _ => false

/-- Whether a datum counts as true. Missing, null, false, zero, `NaN` and the empty string do
not. -/
def isTruthy : Datum → Bool
  | .missing | .null => false
  | .bool value => value
  | .number value => Number.isTruthy value
  | .string value => !value.isEmpty
  | .array _ | .object _ => true

/-- The name of the kind of a datum. -/
def kind : Datum → String
  | .missing => "missing"
  | .null => "null"
  | .bool _ => "bool"
  | .number _ => "number"
  | .string _ => "string"
  | .array _ => "array"
  | .object _ => "object"

/-- The number of a datum that is one. -/
def number? : Datum → Option Float
  | .number value => some value
  | _ => none

/-- The text of a datum that is a string. -/
def string? : Datum → Option Text
  | .string value => some value
  | _ => none

/-- The truth value of a datum that is one. -/
def bool? : Datum → Option Bool
  | .bool value => some value
  | _ => none

/-- The text of a datum, as messages show it: strings as they are, nothing for what is missing, and
compact JSON for arrays and objects. -/
def toText : Datum → Text
  | .missing => []
  | .null => Json.null.compact
  | .bool value => (Json.bool value).compact
  | .number value => Decimal.Layout.plain.write value
  | .string value => value
  | .array items => (Json.array items).compact
  | .object members => (Json.object members).compact

end Datum

end Assertions
