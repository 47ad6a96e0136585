import Assertions.Datum
import Assertions.Path

/-!
# Stores

A store answers look-ups of paths: expressions read the model and the state from one each. What a
store does not know is missing, never an error. There are four kinds:

* `Store.empty`, which knows nothing;
* `Json.store`, a document, in which a path leads through members and items;
* `Document.store`, a document that is handed out as it stands where a path asks for all of it;
* `Bindings.store`, data under names, of which arrays and objects are looked into.
-/

namespace Assertions

/-- Something in which paths can be looked up. -/
structure Store where
  lookup : Path → Datum

/-- The store in which every path is missing. -/
def Store.empty : Store := ⟨fun _ => .missing⟩

/-! ### Documents -/

/-- The position that a segment denotes: digits, with or without a plus sign before them. Positions
are below `2 ^ 64`. -/
def position? (segment : Text) : Option Nat :=
  let digits := match segment with
    | '+' :: rest => rest
    | segment => segment
  if digits.isEmpty || !digits.all Char.isDigit then none
  else
    let n := Decimal.ofDigits digits
    if n < Nat.pow 2 64 then some n else none

namespace Json

/-- The part of a document that a segment leads to. -/
def step? (json : Json) (segment : Text) : Option Json :=
  match json with
  | .object members => Dictionary.findValue? segment members
  | .array items => (position? segment).bind (items[·]?)
  | _ => none

/-- The part of a document that segments lead to, one after the other. -/
def walk? (json : Json) : List Text → Option Json
  | [] => some json
  | segment :: others => (json.step? segment).bind (walk? · others)

/-- The datum at the end of a walk. -/
def lookup (json : Json) (segments : List Text) : Datum :=
  match json.walk? segments with
  | some part => .ofJson part
  | none => .missing

/-- A document as a store. -/
def store (json : Json) : Store := ⟨fun path => json.lookup path.segments⟩

end Json

/-- A document that is shared with everyone who asks for all of it. -/
structure Document where
  json : Json

/-- A shared document as a store. The root of an array or object is that array or object itself;
everything else is looked up. -/
def Document.store (document : Document) : Store where
  lookup path :=
    match document.json, path.isRoot with
    | .array items, true => .array items
    | .object members, true => .object members
    | json, _ => json.lookup path.segments

/-! ### Bindings -/

/-- Data under names. -/
abbrev Bindings := Dictionary Datum

namespace Bindings

/-- The object of all bindings that are not missing. -/
def toMembers (bindings : Bindings) : List (Text × Json) :=
  (bindings.entries.filter fun (_, datum) => !datum.isMissing).map fun (name, datum) =>
    (name, datum.toJson)

/-- The bindings of the members of an object. -/
def ofMembers (members : List (Text × Json)) : Bindings :=
  Dictionary.ofList (members.map fun (name, json) => (name, Datum.ofJson json))

/-- The datum that segments lead to: the first one names a binding, and the others lead into its
array or object. -/
def lookup (bindings : Bindings) : List Text → Datum
  | [] => .object bindings.toMembers
  | [name] => (bindings.find? name).getD .missing
  | name :: others =>
    match bindings.find? name with
    | some (.array items) => (Json.array items).lookup others
    | some (.object members) => (Json.object members).lookup others
    | _ => .missing

/-- Bindings as a store. -/
def store (bindings : Bindings) : Store := ⟨fun path => bindings.lookup path.segments⟩

end Bindings

end Assertions
