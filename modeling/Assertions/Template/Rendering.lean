import Assertions.Compilation
import Assertions.Template

/-!
# Rendering templates

Rendering puts the text of its datum in the place of each reference. A reference without a datum
stays as it is written. A call that cannot be read is a fault, whose span points into the template:
the call is condensed before it is read, so the span is taken back from the condensed call to the
call, and from there to the template.

The references are gone through three times: first for the paths into the model, then for those
into the state, and at last for statements and calls. Only then is the message put together, by
copying the template from the end of each reference to the start of the next one.
-/

namespace Assertions.Template

/-- A reference of a template, with the text to put in its place once there is one. -/
structure Slot where
  span : Span
  reference : Reference
  shown : Option Text

namespace Slot

/-- A reference that nothing is put in place of yet. -/
def unfilled (placed : Span × Reference) : Slot := ⟨placed.1, placed.2, none⟩

/-- The slot with the text of a datum, unless the datum is missing. -/
def fill (slot : Slot) (datum : Datum) : Slot :=
  if datum.isMissing then slot else { slot with shown := some datum.toText }

/-- The text that a slot comes to. -/
def text (slot : Slot) : Text := slot.shown.getD slot.reference.text

/-- The remark about a slot without a text of its own. -/
def events (slot : Slot) : List Event :=
  if slot.shown.isNone then [.unresolved slot.reference.text] else []

end Slot

/-- A path into one side is looked up, and any other reference is passed over. -/
def lookUp (world : World) (side : Side) (slot : Slot) : Slot :=
  match slot.reference.referent with
  | .path own path => if own == side then slot.fill (world.lookup side path) else slot
  | _ => slot

/-- A statement or a call is evaluated, and any other reference is passed over. -/
def evaluateSlot (functions : Repertoire) (world : World) (slot : Slot) :
    Except Fault (Traced Slot) :=
  match slot.reference.referent with
  | .path _ _ => .ok (.pure slot)
  | .statement name => .ok ((functions.call world name (.pure [])).map slot.fill)
  | .call =>
    match Expr.ofText functions.contains slot.reference.text with
    | .error fault =>
      .error ⟨fault.cause, (expandSpan slot.reference.text fault.span).shift slot.span.start⟩
    | .ok e => .ok ((e.evaluate functions world).map slot.fill)

/-- A call is read, with its fault taken back to the template, and then evaluated. -/
theorem evaluateSlot_call (functions : Repertoire) (world : World) (span : Span) (text : Text)
    (shown : Option Text) :
    evaluateSlot functions world ⟨span, ⟨.call, text⟩, shown⟩ =
      ((Expr.ofText functions.contains text).mapError fun fault =>
          ⟨fault.cause, (expandSpan text fault.span).shift span.start⟩).map fun e =>
        (e.evaluate functions world).map (Slot.fill ⟨span, ⟨.call, text⟩, shown⟩) := by
  unfold evaluateSlot
  dsimp only
  cases Expr.ofText functions.contains text <;> rfl

/-- Statements and calls are evaluated in order, up to the first fault. -/
def evaluateSlots (functions : Repertoire) (world : World) :
    List Slot → Traced (Except Fault (List Slot))
  | [] => .pure (.ok [])
  | slot :: others =>
    match evaluateSlot functions world slot with
    | .error fault => .pure (.error fault)
    | .ok traced =>
      traced.andThen fun filled =>
        (evaluateSlots functions world others).map (Except.map (filled :: ·))

/-- The template from position `cursor` on, with the texts of slots in the places of their spans.
The slots have to lie behind the cursor in order, between characters of the template. -/
def splice? (template : Text) (cursor : Nat) : List Slot → Option Text
  | [] => template.dropBytes? cursor
  | slot :: others =>
    (template.slice? cursor slot.span.start).bind fun between =>
      (splice? template slot.span.stop others).map fun rest => between ++ slot.text ++ rest

/-- The message of a template in a world. Remarks about references without a datum come after all
evaluation. References that are found in a template lie in it in order, so putting the message
together does not fail. -/
def render (functions : Repertoire) (world : World) (template : Text) :
    Traced (Except Fault Text) :=
  match references functions.contains template with
  | .error fault => .pure (.error fault)
  | .ok found =>
    let lookedUp := ((found.map .unfilled).map (lookUp world .model)).map (lookUp world .state)
    (evaluateSlots functions world lookedUp).andThen fun
      | .error fault => .pure (.error fault)
      | .ok slots => ⟨.ok ((splice? template 0 slots).getD []), slots.flatMap Slot.events⟩

end Assertions.Template
