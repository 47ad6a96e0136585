import Assertions.Datum

/-!
# Traces

Evaluating an expression may call functions of the host and may come upon things worth a remark. A
`Traced` result carries these events in the order in which they happened.
-/

namespace Assertions

/-- Something that happened in an evaluation. -/
inductive Event where
  /-- A function was called, and saw these arguments. -/
  | called (name : Text) (args : List Datum)
  /-- A name that is not registered was to be called. -/
  | unregistered (name : Text)
  /-- A reference of a message has no value. -/
  | unresolved (text : Text)

/-- A result and the events on the way to it. -/
structure Traced (α : Type u) where
  value : α
  events : List Event

namespace Traced

variable {α : Type u} {β : Type v}

/-- A result that nothing led to. -/
def pure (value : α) : Traced α := ⟨value, []⟩

/-- One step after another. -/
def andThen (first : Traced α) (next : α → Traced β) : Traced β :=
  let second := next first.value
  ⟨second.value, first.events ++ second.events⟩

/-- The same events with another result. -/
def map (f : α → β) (t : Traced α) : Traced β := ⟨f t.value, t.events⟩

@[simp] theorem value_andThen (first : Traced α) (next : α → Traced β) :
    (first.andThen next).value = (next first.value).value := rfl

@[simp] theorem events_andThen (first : Traced α) (next : α → Traced β) :
    (first.andThen next).events = first.events ++ (next first.value).events := rfl

/-- The calls among the events: names, and the arguments that were seen. -/
def calls (t : Traced α) : List (Text × List Datum) :=
  t.events.filterMap fun
    | .called name args => some (name, args)
    | _ => none

end Traced

end Assertions
