import Assertions.Fault
import Assertions.Store

/-!
# Functions of the host

Names in expressions stand for functions that the host program registers. A function sees the world
in which it is called and the data of its arguments; a statement sees the world alone, whatever
arguments are written.

A `Repertoire` holds the registered functions under their names. Names are identifiers other than
the keywords, a name is registered once, and nothing is ever removed.
-/

namespace Assertions

/-- What expressions are evaluated in. -/
structure World where
  model : Store
  state : Store

namespace World

/-- The world in which every path is missing. -/
def empty : World := ⟨.empty, .empty⟩

/-- What a reference finds. -/
def lookup (world : World) : Side → Path → Datum
  | .model, path => world.model.lookup path
  | .state, path => world.state.lookup path

end World

/-- What a name stands for. -/
inductive HostFunction where
  /-- It sees the data of its arguments. -/
  | function (run : World → List Datum → Datum)
  /-- It sees no arguments. -/
  | statement (run : World → Datum)

namespace HostFunction

/-- The arguments, of those given, that a function sees. -/
def seen : HostFunction → List Datum → List Datum
  | .function _, args => args
  | .statement _, _ => []

/-- What a function gives for the arguments given. -/
def result (f : HostFunction) (world : World) (args : List Datum) : Datum :=
  match f with
  | .function run => run world args
  | .statement run => run world

end HostFunction

/-! ### Refusals -/

/-- Why a registration or a compilation is refused. -/
inductive Refusal where
  /-- A name is registered already. -/
  | duplicate (name : Text)
  /-- A name is a keyword or no identifier. -/
  | badName (name : Text)
  /-- The text before the separator of an assertion is no activation. -/
  | badActivation (activation : Text)
  /-- A text cannot be read. -/
  | fault (fault : Fault)
deriving DecidableEq

namespace Refusal

/-- The message of a refusal. -/
def message : Refusal → String
  | duplicate name => "function " ++ Cause.inQuotes name ++ " is already registered"
  | badName name => Cause.inQuotes name ++ " is not a valid function name"
  | badActivation activation =>
    "invalid activation " ++ Cause.inQuotes activation ++
      ": expected ALWAYS, WHEN(<condition>) or a statement"
  | fault f => f.message

/-- The fault in a text, if that is the reason. -/
def fault? : Refusal → Option Fault
  | fault f => some f
  | _ => none

end Refusal

/-! ### Repertoires -/

/-- The functions of a host, under their names. -/
structure Repertoire where
  table : Dictionary HostFunction
  named : ∀ e ∈ table.entries, isFunctionName e.1 = true

namespace Repertoire

/-- The repertoire without functions. -/
def empty : Repertoire := ⟨.empty, by simp [Dictionary.empty]⟩

/-- The function under a name. -/
def find? (functions : Repertoire) (name : Text) : Option HostFunction := functions.table.find? name

/-- Whether a name is registered. -/
def contains (functions : Repertoire) (name : Text) : Bool := functions.table.contains name

/-- Every registered name is one that a function may have. -/
theorem isFunctionName_of_contains {functions : Repertoire} {name : Text}
    (h : functions.contains name = true) : isFunctionName name = true := by
  obtain ⟨f, hf⟩ := Option.isSome_iff_exists.1 h
  exact functions.named _ (Dictionary.mem_of_findValue? hf)

theorem isIdentifier_of_contains {functions : Repertoire} {name : Text}
    (h : functions.contains name = true) : isIdentifier name = true := by
  have hfunction := isFunctionName_of_contains h
  simp only [isFunctionName, Bool.and_eq_true] at hfunction
  exact hfunction.1

/-- The number of functions. -/
def size (functions : Repertoire) : Nat := functions.table.size

/-- The registered names in increasing order. -/
def names (functions : Repertoire) : List Text := functions.table.names

/-- The repertoire with one more function. A name that no function may have is refused first, then
one that is registered. -/
def register (functions : Repertoire) (name : Text) (f : HostFunction) :
    Except Refusal Repertoire :=
  if h : isFunctionName name = true then
    if functions.contains name then .error (.duplicate name)
    else .ok ⟨functions.table.insert name f, fun e he =>
      (Dictionary.mem_insertEntry he).elim (fun heq => by rw [heq]; exact h)
        (functions.named e)⟩
  else .error (.badName name)

/-- Registering a function makes its name known, and no other. -/
theorem contains_of_register {functions registered : Repertoire} {name : Text} {f : HostFunction}
    (h : functions.register name f = .ok registered) (other : Text) :
    registered.contains other = (name == other || functions.contains other) := by
  unfold register at h
  split at h
  · split at h
    · cases h
    · cases h
      simp only [contains, Dictionary.contains, Dictionary.find?_insert]
      by_cases hother : name = other
      · simp [hother]
      · simp [hother]
  · cases h

end Repertoire

end Assertions
