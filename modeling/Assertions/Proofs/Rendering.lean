import Assertions.Proofs.References
import Assertions.Template.Rendering

/-!
# Rendering by way of expressions

The message of a template is the template with the text of every reference replaced by the datum of
the expression that this text is read as. Rendering comes to it in another way: it looks up paths
and calls functions without reading expressions, goes through the references three times, and puts
the message together from parts of the template.

`Replaced` says that an output comes from a template by replacing the texts at some spans. It is
shown that the three rounds together leave every slot with the datum of its expression
(`evaluateSlots_eq_ok_iff`), and that the parts are put together as `Replaced` says
(`Replaced.splice?_eq`).
-/

namespace Assertions.Template

/-- The text that stands for a reference in a message: that of the datum of its expression, or its
own one if the datum is missing. -/
def shownText (functions : Repertoire) (world : World) (text : Text) : Text :=
  match Expr.ofText functions.contains text with
  | .error _ => text
  | .ok e =>
    let datum := (e.evaluate functions world).value
    if datum.isMissing then text else datum.toText

/-- Whether an output is a text at position `offset` in which references are replaced, each at its
span, and everything between them is as it was. -/
inductive Replaced (shown : Text → Text) :
    (offset : Nat) → (text : Text) → List (Span × Reference) → (output : Text) → Prop
  | nil (offset : Nat) (text : Text) : Replaced shown offset text [] text
  | cons {offset : Nat} (before : Text) {r : Reference} {rest output : Text}
    {others : List (Span × Reference)}
    (hrest : Replaced shown (offset + Text.size before + Text.size r.text) rest others output) :
    Replaced shown offset (before ++ r.text ++ rest)
      ((⟨offset + Text.size before, offset + Text.size before + Text.size r.text⟩, r) :: others)
      (before ++ shown r.text ++ output)

namespace Replaced

variable {shown : Text → Text} {offset : Nat} {text output output' : Text}
  {found : List (Span × Reference)}

/-- Plain text in front stays. -/
theorem prepend (front : Text)
    (h : Replaced shown (offset + Text.size front) text found output) :
    Replaced shown offset (front ++ text) found (front ++ output) := by
  cases h with
  | nil => exact .nil offset _
  | cons before hrest =>
    rw [Nat.add_assoc offset, ← Text.size_append] at hrest ⊢
    have hwhole := Replaced.cons (front ++ before) hrest
    simpa only [List.append_assoc] using hwhole

/-- The references among pieces can be replaced in the text of the pieces. -/
theorem exists_of_pieces (shown : Text → Text) (pieces : List Piece) :
    ∀ offset, ∃ output, Replaced shown offset (pieces.flatMap Piece.text)
      (placedReferences offset pieces) output := by
  induction pieces with
  | nil => exact fun offset => ⟨[], .nil offset []⟩
  | cons piece others ih =>
    intro offset
    cases piece with
    | plain text =>
      obtain ⟨output, hothers⟩ := ih (offset + Text.size text)
      exact ⟨text ++ output, hothers.prepend text⟩
    | reference r =>
      obtain ⟨output, hothers⟩ := ih (offset + Text.size r.text)
      exact ⟨shown r.text ++ output, .cons [] hothers⟩

/-- There is one output at most. -/
theorem unique (h : Replaced shown offset text found output)
    (h' : Replaced shown offset text found output') : output = output' := by
  induction h generalizing output' with
  | nil =>
    cases h'
    rfl
  | cons before hrest ih =>
    rename_i offset r rest output others
    generalize htext : before ++ r.text ++ rest = text at h'
    generalize hfound : (Span.mk (offset + Text.size before)
      (offset + Text.size before + Text.size r.text), r) :: others = found at h'
    cases h' with
    | nil => cases hfound
    | cons before' hrest' =>
      -- The span of a reference tells how long the text in front of it is.
      simp only [List.cons.injEq, Prod.mk.injEq, Span.mk.injEq, Nat.add_left_cancel_iff] at hfound
      obtain ⟨⟨⟨hsize, -⟩, rfl⟩, rfl⟩ := hfound
      rw [List.append_assoc, List.append_assoc] at htext
      obtain ⟨rfl, hbehind⟩ := Text.append_inj_of_size htext hsize
      obtain rfl := List.append_cancel_left hbehind
      rw [ih hrest']

end Replaced

/-! ### The rounds -/

namespace Slot

@[simp] theorem span_fill (slot : Slot) (datum : Datum) : (slot.fill datum).span = slot.span := by
  unfold fill
  split <;> rfl

@[simp] theorem reference_fill (slot : Slot) (datum : Datum) :
    (slot.fill datum).reference = slot.reference := by
  unfold fill
  split <;> rfl

end Slot

variable {functions : Repertoire} {world : World}

/-- The slot of a reference with the datum of its expression. -/
def filled (functions : Repertoire) (world : World) (placed : Span × Reference) : Slot :=
  match Expr.ofText functions.contains placed.2.text with
  | .error _ => .unfilled placed
  | .ok e => (Slot.unfilled placed).fill (e.evaluate functions world).value

theorem span_filled (placed : Span × Reference) :
    (filled functions world placed).span = placed.1 := by
  unfold filled
  split
  · rfl
  · rw [Slot.span_fill]
    rfl

theorem text_filled (placed : Span × Reference) :
    (filled functions world placed).text = shownText functions world placed.2.text := by
  unfold filled shownText
  split
  · rfl
  · dsimp only [Slot.fill]
    split <;> rfl

/-- A slot after the two rounds for paths. -/
def lookedUp (world : World) (placed : Span × Reference) : Slot :=
  lookUp world .state (lookUp world .model (.unfilled placed))

/-- The rounds evaluate the expression of a reference and fill the slot with its datum. -/
theorem evaluateSlot_eq_map_fill (world : World) {placed : Span × Reference} {e : Expr}
    (hagrees : placed.2.Agrees functions.contains)
    (he : Expr.ofText functions.contains placed.2.text = .ok e) :
    evaluateSlot functions world (lookedUp world placed) =
      .ok ((e.evaluate functions world).map (Slot.unfilled placed).fill) := by
  obtain ⟨span, referent, text⟩ := placed
  cases referent with
  | path side path =>
    have hread := he.symm.trans hagrees
    cases hread
    -- The round of its own side fills the slot of a path, and the others pass over it.
    have hlook : lookedUp world (span, ⟨.path side path, text⟩) =
        (Slot.unfilled (span, ⟨.path side path, text⟩)).fill (world.lookup side path) := by
      cases side <;> simp [lookedUp, lookUp, Slot.unfilled]
    rw [hlook]
    simp [evaluateSlot, Slot.unfilled, Expr.evaluate, Traced.pure, Traced.map]
  | statement name =>
    have hread := he.symm.trans hagrees
    cases hread
    rw [Expr.evaluate]
    rfl
  | call =>
    show evaluateSlot functions world ⟨span, ⟨.call, text⟩, none⟩ = _
    rw [evaluateSlot_call, he]
    rfl

/-- The rounds leave a slot with the datum of its expression. -/
theorem evaluateSlot_lookedUp (world : World) {placed : Span × Reference} {e : Expr}
    (hagrees : placed.2.Agrees functions.contains)
    (he : Expr.ofText functions.contains placed.2.text = .ok e) :
    ∃ events, evaluateSlot functions world (lookedUp world placed) =
      .ok ⟨filled functions world placed, events⟩ := by
  have hfilled : filled functions world placed =
      (Slot.unfilled placed).fill (e.evaluate functions world).value := by
    unfold filled
    rw [he]
  rw [hfilled]
  exact ⟨_, evaluateSlot_eq_map_fill world hagrees he⟩

/-- A reference that is evaluated can be read. -/
theorem exists_of_evaluateSlot {placed : Span × Reference} {traced : Traced Slot}
    (hagrees : placed.2.Agrees functions.contains)
    (h : evaluateSlot functions world (lookedUp world placed) = .ok traced) :
    ∃ e, Expr.ofText functions.contains placed.2.text = .ok e := by
  obtain ⟨span, referent, text⟩ := placed
  cases referent with
  | path side path => exact ⟨_, hagrees⟩
  | statement name => exact ⟨_, hagrees⟩
  | call =>
    cases hread : Expr.ofText functions.contains text with
    | ok e => exact ⟨e, rfl⟩
    | error fault =>
      have hcall : evaluateSlot functions world ⟨span, ⟨.call, text⟩, none⟩ = .ok traced := h
      rw [evaluateSlot_call, hread] at hcall
      cases hcall

theorem evaluateSlots_cons_eq_ok_iff {slot : Slot} {others slots : List Slot} :
    (evaluateSlots functions world (slot :: others)).value = .ok slots ↔
      ∃ traced rest, evaluateSlot functions world slot = .ok traced ∧
        (evaluateSlots functions world others).value = .ok rest ∧ slots = traced.value :: rest := by
  rw [evaluateSlots]
  cases evaluateSlot functions world slot with
  | error fault => simp [Traced.pure]
  | ok traced =>
    rw [Traced.value_andThen]
    cases hvalue : (evaluateSlots functions world others).value with
    | error fault => simp [Traced.map, hvalue, Except.map]
    | ok rest => simp [Traced.map, hvalue, Except.map, eq_comm]

/-- **The rounds.** They succeed if and only if every reference can be read as an expression, and
then they leave every slot with the datum of its expression. -/
theorem evaluateSlots_eq_ok_iff {found : List (Span × Reference)} {slots : List Slot}
    (hagrees : ∀ placed ∈ found, placed.2.Agrees functions.contains) :
    (evaluateSlots functions world (found.map (lookedUp world))).value = .ok slots ↔
      (∀ placed ∈ found, ∃ e, Expr.ofText functions.contains placed.2.text = .ok e) ∧
        slots = found.map (filled functions world) := by
  induction found generalizing slots with
  | nil => simp [evaluateSlots, Traced.pure, eq_comm]
  | cons first others ih =>
    obtain ⟨hfirst, hothers⟩ := List.forall_mem_cons.1 hagrees
    rw [List.map_cons, List.map_cons, List.forall_mem_cons, evaluateSlots_cons_eq_ok_iff]
    constructor
    · rintro ⟨traced, rest, heval, hrest, rfl⟩
      obtain ⟨e, he⟩ := exists_of_evaluateSlot hfirst heval
      obtain ⟨events, hok⟩ := evaluateSlot_lookedUp world hfirst he
      obtain ⟨hread, rfl⟩ := (ih hothers).1 hrest
      rw [hok] at heval
      cases heval
      exact ⟨⟨⟨e, he⟩, hread⟩, rfl⟩
    · rintro ⟨⟨⟨e, he⟩, hread⟩, rfl⟩
      obtain ⟨events, hok⟩ := evaluateSlot_lookedUp world hfirst he
      exact ⟨_, _, hok, (ih hothers).2 ⟨hread, rfl⟩, rfl⟩

/-! ### The message -/

theorem Replaced.splice?_eq {offset : Nat} {text output : Text} {found : List (Span × Reference)}
    (h : Replaced (shownText functions world) offset text found output) :
    ∀ front, Text.size front = offset →
      splice? (front ++ text) offset (found.map (filled functions world)) = some output := by
  induction h with
  | nil offset text =>
    rintro front rfl
    exact Text.dropBytes?_append front text
  | cons before hrest ih =>
    rename_i offset r rest output others
    rintro front rfl
    have hbetween := Text.slice?_append front before (r.text ++ rest)
    have hmore := ih (front ++ before ++ r.text) (by rw [Text.size_append, Text.size_append])
    rw [List.map_cons, splice?, span_filled, text_filled]
    simp only [List.append_assoc] at hbetween hmore ⊢
    rw [hbetween, Option.bind_some, hmore, Option.map_some]

/-- What is found in a template can be replaced in it. -/
theorem exists_replaced_of_references (shown : Text → Text) {names : Text → Bool} {template : Text}
    {found : List (Span × Reference)} (h : references names template = .ok found) :
    ∃ output, Replaced shown 0 template found output := by
  obtain ⟨pieces, hread, rfl⟩ := exists_pieces_of_references h
  obtain ⟨output, houtput⟩ := Replaced.exists_of_pieces shown pieces 0
  rw [text_read hread] at houtput
  exact ⟨output, houtput⟩

/-- The rounds for paths, one slot after the other. -/
theorem map_lookUp_eq (world : World) (found : List (Span × Reference)) :
    ((found.map .unfilled).map (lookUp world .model)).map (lookUp world .state) =
      found.map (lookedUp world) := by
  rw [List.map_map, List.map_map]
  rfl

/-- A message is what the rounds and the putting together come to. -/
theorem render_value_of_references {template : Text} {found : List (Span × Reference)}
    (h : references functions.contains template = .ok found) :
    (render functions world template).value =
      (evaluateSlots functions world (found.map (lookedUp world))).value.map fun slots =>
        (splice? template 0 slots).getD [] := by
  unfold render
  rw [h]
  simp only [map_lookUp_eq, Traced.value_andThen]
  cases (evaluateSlots functions world (found.map (lookedUp world))).value <;> rfl

/-- A message is rendered exactly if every reference can be read, and it is the template with the
references replaced. -/
theorem render_value_eq_ok_iff {template output : Text} :
    (render functions world template).value = .ok output ↔
      ∃ found, references functions.contains template = .ok found ∧
        (∀ placed ∈ found, ∃ e, Expr.ofText functions.contains placed.2.text = .ok e) ∧
        Replaced (shownText functions world) 0 template found output := by
  cases hfound : references functions.contains template with
  | error fault => simp [render, hfound, Traced.pure]
  | ok found =>
    have hagrees : ∀ placed ∈ found, placed.2.Agrees functions.contains :=
      fun placed hplaced => agrees_of_mem_references hfound hplaced
    obtain ⟨replaced, hreplaced⟩ := exists_replaced_of_references (shownText functions world) hfound
    have hsplice : splice? template 0 (found.map (filled functions world)) = some replaced :=
      hreplaced.splice?_eq [] rfl
    rw [render_value_of_references hfound]
    constructor
    · intro h
      cases hslots : (evaluateSlots functions world (found.map (lookedUp world))).value with
      | error fault =>
        rw [hslots] at h
        cases h
      | ok slots =>
        obtain ⟨hread, rfl⟩ := (evaluateSlots_eq_ok_iff hagrees).1 hslots
        rw [hslots] at h
        simp only [Except.map, Except.ok.injEq] at h
        rw [← h, hsplice]
        exact ⟨found, rfl, hread, hreplaced⟩
    · rintro ⟨_, ⟨⟩, hread, houtput⟩
      rw [(evaluateSlots_eq_ok_iff hagrees).2 ⟨hread, rfl⟩, Except.map, hsplice]
      exact congrArg Except.ok (hreplaced.unique houtput)

/-- **Messages and expressions.** A reference of a template is read as an expression of its own kind
that reaches over all of it, and only a call may fail to be read. A message is rendered if and only
if the references of the template are found and all its calls can be read. It is then the template
with each reference replaced by the text of the datum of its expression, or left as it is if that
datum is missing, and with everything between references unchanged. -/
theorem render_by_expressions (functions : Repertoire) (world : World) (template : Text) :
    (∀ found, references functions.contains template = .ok found →
      ∀ placed ∈ found, placed.2.Agrees functions.contains) ∧
    ((∃ output, (render functions world template).value = .ok output) ↔
      ∃ found, references functions.contains template = .ok found ∧
        ∀ placed ∈ found, placed.2.referent = .call →
          ∃ e, Expr.ofText functions.contains placed.2.text = .ok e) ∧
    ∀ output, (render functions world template).value = .ok output ↔
      ∃ found, references functions.contains template = .ok found ∧
        (∀ placed ∈ found, ∃ e, Expr.ofText functions.contains placed.2.text = .ok e) ∧
        Replaced (shownText functions world) 0 template found output := by
  refine ⟨?_, ?_, fun output => render_value_eq_ok_iff⟩
  · intro found hfound placed hplaced
    exact agrees_of_mem_references hfound hplaced
  · constructor
    · rintro ⟨output, houtput⟩
      obtain ⟨found, hfound, hread, -⟩ := render_value_eq_ok_iff.1 houtput
      exact ⟨found, hfound, fun placed hplaced _ => hread placed hplaced⟩
    · rintro ⟨found, hfound, hcalls⟩
      obtain ⟨output, houtput⟩ := exists_replaced_of_references (shownText functions world) hfound
      have hread : ∀ placed ∈ found,
          ∃ e, Expr.ofText functions.contains placed.2.text = .ok e := by
        intro placed hplaced
        exact (agrees_of_mem_references hfound hplaced).exists_of_call (hcalls placed hplaced)
      exact ⟨output, render_value_eq_ok_iff.2 ⟨found, hfound, hread, houtput⟩⟩

end Assertions.Template
