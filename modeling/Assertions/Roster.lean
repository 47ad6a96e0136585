import Assertions.Host

/-!
# Rosters of names

A roster is a set of function names in the order of their registration. A name can be registered
once, and no name is ever removed. Any text can be registered, unlike in a `Repertoire`.
-/

namespace Assertions

/-- Distinct names in the order of registration. -/
structure Roster where
  names : List Text
  nodup : names.Nodup

namespace Roster

/-- The roster without names. -/
def empty : Roster := ⟨[], .nil⟩

/-- Whether a name is registered. -/
def contains (roster : Roster) (name : Text) : Bool := roster.names.contains name

/-- The roster with one more name, unless that name is registered. -/
def register? (roster : Roster) (name : Text) : Option Roster :=
  if h : name ∈ roster.names then none
  else some ⟨roster.names ++ [name], List.nodup_append.2
    ⟨roster.nodup, by simp, fun a ha b hb => by
      rw [List.mem_singleton.1 hb]
      exact fun e => h (e ▸ ha)⟩⟩

/-- Registering in place: the answer, and the roster after it. -/
def register (roster : Roster) (name : Text) : Except Refusal Unit × Roster :=
  match roster.register? name with
  | some more => (.ok (), more)
  | none => (.error (.duplicate name), roster)

/-- A roster with one more name, put together by registering it. -/
def withName (roster : Roster) (name : Text) : Except Refusal Roster :=
  match roster.register name with
  | (.ok (), more) => .ok more
  | (.error refusal, _) => .error refusal

/-- The roster after an attempt to register a name, which may fail. -/
def attempt (roster : Roster) (name : Text) : Roster := (roster.register? name).getD roster

/-- The roster of the names in a list, where repeats count once. -/
def ofList (names : List Text) : Roster := names.foldl attempt empty

/-- The number of names. -/
def size (roster : Roster) : Nat := roster.names.length

end Roster

end Assertions
