import Assertions.Roster
import Mathlib.Data.List.Basic

/-!
# Sets of names

Readers ask a set of names whether a name is in it, and nothing else. A host can give them a roster
or a set that it has put together in another way.
-/

namespace Assertions

/-- The sets of names that readers can ask. Hashed sets need not agree on how names are hashed. -/
inductive NameSet where
  | roster (names : Roster)
  | hashed (hashing : Hashable Text) (names : Std.HashSet Text)
  | sorted (names : Std.TreeSet Text compare)
  | slice (names : List Text)
  | array (names : Array Text)

namespace NameSet

/-- Whether a name is in a set. -/
def isRegistered (set : NameSet) (name : Text) : Bool :=
  match set with
  | .roster names => names.contains name
  | .hashed _hashing names => names.contains name
  | .sorted names => names.contains name
  | .slice names => names.contains name
  | .array names => names.contains name

/-- A hashed set of the names in a list has those names, whatever their hashes are. -/
theorem isRegistered_hashed (hashing : Hashable Text) (names : List Text) (name : Text) :
    (hashed hashing (.ofList names)).isRegistered name = names.contains name :=
  Std.HashSet.contains_ofList

/-- A sorted set of the names in a list has those names. -/
theorem isRegistered_sorted (names : List Text) (name : Text) :
    (sorted (.ofList names compare)).isRegistered name = names.contains name :=
  Std.TreeSet.contains_ofList

end NameSet

end Assertions
