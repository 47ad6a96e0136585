import Assertions.Proofs.CallOrder
import Assertions.Proofs.Dictionaries
import Assertions.Proofs.MessageFaults

/-!
# Kinds of stores

A document may be handed out as it is, shared, or as bindings of its members. A shared document
answers every look-up in the same way as the plain one, so nothing can tell the two apart. Bindings
answer every look-up but that of the root in the same way (`Bindings.lookup_ofMembers`).

A program comes upon the difference only if it looks the root up, in a reference that is evaluated
or in a function that is called. `Expr.SkipsRoot` says that an evaluation does neither, and then it
is the same with every kind of store, and so are verdicts and messages.
-/

namespace Assertions

/-! ### Look-ups -/

/-- A shared document answers every look-up like the plain one. -/
theorem Document.lookup_store (json : Json) (path : Path) :
    (Document.store ⟨json⟩).lookup path = json.store.lookup path := by
  obtain ⟨segments⟩ := path
  cases segments with
  | nil => cases json <;> rfl
  | cons first others => cases json <;> rfl

theorem Json.lookup_eq_getD (json : Json) (segments : List Text) :
    json.lookup segments = ((json.walk? segments).map Datum.ofJson).getD .missing := by
  rw [Json.lookup]
  cases json.walk? segments <;> rfl

theorem Bindings.find?_ofMembers (members : Dictionary Json) (name : Text) :
    (Bindings.ofMembers members.entries).find? name = (members.find? name).map Datum.ofJson := by
  have hsorted : (members.entries.map fun e => (e.1, Datum.ofJson e.2)).Pairwise
      fun a b => a.1.Before b.1 := List.pairwise_map.2 members.sorted
  show (Dictionary.ofList (members.entries.map fun e => (e.1, Datum.ofJson e.2))).find? name = _
  rw [Dictionary.find?_ofList hsorted, Dictionary.findValue?_map]
  rfl

/-- What is found behind a datum is found behind the part of the document that it comes from. -/
theorem Bindings.lookup_ofMembers (members : Dictionary Json) {segments : List Text}
    (h : segments ≠ []) :
    (Bindings.ofMembers members.entries).lookup segments =
      (Json.object members.entries).lookup segments := by
  cases segments with
  | nil => exact absurd rfl h
  | cons first others =>
    have hwalk : (Json.object members.entries).walk? (first :: others) =
        (members.find? first).bind (Json.walk? · others) := rfl
    rw [Json.lookup_eq_getD, hwalk]
    cases others with
    | nil =>
      simp only [Bindings.lookup, find?_ofMembers]
      cases members.find? first <;> rfl
    | cons second rest =>
      simp only [Bindings.lookup, find?_ofMembers]
      cases members.find? first with
      | none => rfl
      | some json =>
        cases json with
        | array | object => exact Json.lookup_eq_getD _ _
        | null | bool | integer | double | string => rfl

/-- The stores that hand out a document, its root included. -/
inductive Json.WholeStore (json : Json) : Store → Prop
  | plain : WholeStore json json.store
  | shared : WholeStore json (Document.store ⟨json⟩)

/-- The stores that hand out the parts of a document. -/
inductive Json.PartsStore : Json → Store → Prop
  | whole {json : Json} {store : Store} (h : json.WholeStore store) : PartsStore json store
  | bound (members : Dictionary Json) :
    PartsStore (.object members.entries) (Bindings.ofMembers members.entries).store

/-- There is one store that hands out all of a document. -/
theorem Json.WholeStore.eq_store {json : Json} {store : Store} (h : json.WholeStore store) :
    store = json.store := by
  cases h with
  | plain => rfl
  | shared =>
    have hlookup : (Document.store ⟨json⟩).lookup = json.store.lookup := by
      funext path
      exact Document.lookup_store json path
    rw [← show (⟨(Document.store ⟨json⟩).lookup⟩ : Store) = Document.store ⟨json⟩ from rfl, hlookup]

/-- A store of the parts answers every look-up but that of the root like the document. -/
theorem Json.PartsStore.lookup_eq {json : Json} {store : Store} (h : json.PartsStore store)
    {path : Path} (hpath : path ≠ Path.root) : store.lookup path = json.store.lookup path := by
  cases h with
  | whole hwhole => rw [hwhole.eq_store]
  | bound members =>
    refine Bindings.lookup_ofMembers members ?_
    intro hnil
    obtain ⟨segments⟩ := path
    exact hpath (congrArg Path.mk hnil)

/-! ### Worlds -/

namespace World

/-- Whether a world hands out a model and a state. -/
structure Shows (world : World) (model state : Json) : Prop where
  model : model.WholeStore world.model
  state : state.WholeStore world.state

/-- Whether a world hands out the parts of a model and of a state. -/
structure ShowsParts (world : World) (model state : Json) : Prop where
  model : model.PartsStore world.model
  state : state.PartsStore world.state

/-- Whether two worlds find the same at every path but the root. -/
def AgreesBelowRoot (world other : World) : Prop :=
  ∀ side path, path ≠ Path.root → world.lookup side path = other.lookup side path

variable {world other : World} {model state : Json}

theorem Shows.eq (h : world.Shows model state) (hother : other.Shows model state) :
    world = other := by
  have hmodel := h.model.eq_store.trans hother.model.eq_store.symm
  have hstate := h.state.eq_store.trans hother.state.eq_store.symm
  obtain ⟨a, b⟩ := world
  obtain ⟨c, d⟩ := other
  exact congr (congrArg World.mk hmodel) hstate

theorem ShowsParts.agreesBelowRoot (h : world.ShowsParts model state)
    (hother : other.ShowsParts model state) : world.AgreesBelowRoot other := by
  intro side path hpath
  cases side with
  | model => exact (h.model.lookup_eq hpath).trans (hother.model.lookup_eq hpath).symm
  | state => exact (h.state.lookup_eq hpath).trans (hother.state.lookup_eq hpath).symm

end World

/-! ### Programs that do not look up the root -/

/-- Whether a function never looks up the root: it gives the same in worlds that differ in nothing
else. -/
def HostFunction.IgnoresRoot (f : HostFunction) : Prop :=
  ∀ world other : World, world.AgreesBelowRoot other →
    ∀ args, f.result world args = f.result other args

/-- Whether what is under a name never looks up the root. -/
def Repertoire.IgnoresRoot (functions : Repertoire) (name : Text) : Prop :=
  ∀ f, functions.find? name = some f → f.IgnoresRoot

namespace Expr

/-- Whether a node does not look up the root itself: it refers to another path, or calls a function
that does not look it up. -/
def StaysBelowRoot (functions : Repertoire) : Expr → Prop
  | .ref _ _ path => path ≠ Path.root
  | .statement _ name | .call _ name _ => functions.IgnoresRoot name
  | .string .. | .number .. | .binary .. | .group .. => True

/-- Whether an evaluation comes to no node that looks up the root. -/
def SkipsRoot (functions : Repertoire) (world : World) (e : Expr) : Prop :=
  ∀ place n, e.at? place = some n → e.IsReached functions world place →
    n.StaysBelowRoot functions

variable {functions : Repertoire} {world other : World}

theorem SkipsRoot.staysBelowRoot {e : Expr} (h : e.SkipsRoot functions world) :
    e.StaysBelowRoot functions := h [] e rfl (isReached_nil e)

/-- An expression in which no node looks up the root does not come to it. -/
theorem skipsRoot_of_forall {e : Expr} (h : ∀ n ∈ e.nodes, n.StaysBelowRoot functions) :
    e.SkipsRoot functions world :=
  fun _ n hn _ => h n (mem_nodes_of_at? hn)

theorem SkipsRoot.of_child {e child : Expr} (h : e.SkipsRoot functions world) {i : Nat}
    (hchild : e.children[i]? = some child) (hadmits : e.admits functions world i = true) :
    child.SkipsRoot functions world := by
  intro place n hn hreached
  refine h (i :: place) n (at?_cons_eq_some_iff.2 ⟨child, hchild, hn⟩) ?_
  refine isReached_cons_iff.2 ⟨hadmits, fun found hfound => ?_⟩
  rw [hchild] at hfound
  cases hfound
  exact hreached

/-- A call is the same in both worlds if its arguments are and the function ignores the root. -/
theorem call_eq_of_ignoresRoot (hworlds : world.AgreesBelowRoot other) {name : Text}
    (hname : functions.IgnoresRoot name) {args args' : Traced (List Datum)}
    (hargs : functions.contains name = true → args = args') :
    functions.call world name args = functions.call other name args' := by
  cases hf : functions.find? name with
  | none => rw [Repertoire.call, Repertoire.call, hf]
  | some f =>
    have hresult : f.result world = f.result other := by
      funext data
      exact hname f hf world other hworlds data
    have hsame := hargs (Repertoire.contains_of_find? hf)
    simp only [Repertoire.call, hf, hsame, hresult]

/-- An evaluation that does not come to the root is the same in worlds that agree below it. -/
theorem SkipsRoot.evaluate_eq (hworlds : world.AgreesBelowRoot other) {e : Expr}
    (h : e.SkipsRoot functions world) :
    e.evaluate functions world = e.evaluate functions other := by
  induction e with
  | ref span side path => rw [evaluate, evaluate, hworlds side path h.staysBelowRoot]
  | string | number => rw [evaluate, evaluate]
  | statement span name =>
    rw [evaluate, evaluate]
    exact call_eq_of_ignoresRoot hworlds h.staysBelowRoot fun _ => rfl
  | call span name args ih =>
    rw [evaluate, evaluate]
    refine call_eq_of_ignoresRoot hworlds h.staysBelowRoot fun hname => ?_
    refine evaluateAll_congr fun arg harg => ih arg harg ?_
    obtain ⟨i, hi⟩ := List.getElem?_of_mem harg
    exact h.of_child hi hname
  | binary op left right ihl ihr =>
    have hleft := ihl (h.of_child (i := 0) rfl (by cases op <;> rfl))
    rw [evaluate, evaluate, ← hleft, Traced.andThen, Traced.andThen]
    cases hdecided : op.isDecidedBy (left.evaluate functions world).value with
    | true => rfl
    | false =>
      have hadmits : (binary op left right).admits functions world 1 = true := by
        rw [admits_right, hdecided, Bool.not_false]
      rw [ihr (h.of_child (i := 1) rfl hadmits)]
  | group span inner ih => rw [evaluate, evaluate, ih (h.of_child (i := 0) rfl rfl)]

end Expr

/-! ### Assertions and messages -/

section

variable {functions : Repertoire} {world other : World} (hworlds : world.AgreesBelowRoot other)
include hworlds

/-- Whether checking an assertion does not come to the root, neither for its activation nor, where
it is active, for its condition. -/
def Assertion.SkipsRoot (world : World) (assertion : Assertion) : Prop :=
  (match assertion.activation with
    | .always => True
    | .guard e => e.SkipsRoot assertion.functions world
    | .gate name => assertion.functions.IgnoresRoot name) ∧
  ((assertion.isActive world).value = true →
    assertion.condition.SkipsRoot assertion.functions world)

theorem Assertion.SkipsRoot.check_eq {assertion : Assertion} (h : assertion.SkipsRoot world) :
    assertion.check world = assertion.check other := by
  obtain ⟨source, activation, condition, functions⟩ := assertion
  obtain ⟨hactivation, hcondition⟩ := h
  have hactive : isActive ⟨source, activation, condition, functions⟩ world =
      isActive ⟨source, activation, condition, functions⟩ other := by
    cases activation with
    | always => rfl
    | guard e => simp only [isActive, Expr.SkipsRoot.evaluate_eq hworlds hactivation]
    | gate name =>
      simp only [isActive, Expr.call_eq_of_ignoresRoot hworlds hactivation fun _ => rfl]
  rw [check, check, ← hactive, Traced.andThen, Traced.andThen]
  cases hvalue : (isActive ⟨source, activation, condition, functions⟩ world).value with
  | false => rfl
  | true => rw [(hcondition hvalue).evaluate_eq hworlds]

/-- Whether no reference of a template comes to the root. -/
def Template.SkipsRoot (functions : Repertoire) (world : World) (template : Text) : Prop :=
  ∀ found, Template.references functions.contains template = .ok found →
    ∀ placed ∈ found, ∀ e, Expr.ofText functions.contains placed.2.text = .ok e →
      e.SkipsRoot functions world

namespace Template

theorem evaluateSlot_eq_of_skipsRoot {placed : Span × Reference}
    (hagrees : placed.2.Agrees functions.contains)
    (h : ∀ e, Expr.ofText functions.contains placed.2.text = .ok e → e.SkipsRoot functions world) :
    evaluateSlot functions world (lookedUp world placed) =
      evaluateSlot functions other (lookedUp other placed) := by
  cases hread : Expr.ofText functions.contains placed.2.text with
  | ok e =>
    rw [evaluateSlot_eq_map_fill world hagrees hread, evaluateSlot_eq_map_fill other hagrees hread,
      (h e hread).evaluate_eq hworlds]
  | error fault =>
    have hworld := (evaluateSlot_lookedUp_of_error world hagrees hread).2
    have hother := (evaluateSlot_lookedUp_of_error other hagrees hread).2
    rw [hworld, hother]

omit hworlds in
theorem evaluateSlots_congr {list : List (Span × Reference)}
    (h : ∀ placed ∈ list, evaluateSlot functions world (lookedUp world placed) =
      evaluateSlot functions other (lookedUp other placed)) :
    evaluateSlots functions world (list.map (lookedUp world)) =
      evaluateSlots functions other (list.map (lookedUp other)) := by
  induction list with
  | nil => rfl
  | cons placed rest ih =>
    obtain ⟨hplaced, hrest⟩ := List.forall_mem_cons.1 h
    rw [List.map_cons, List.map_cons, evaluateSlots, evaluateSlots, hplaced, ih hrest]

theorem SkipsRoot.render_eq {template : Text} (h : SkipsRoot functions world template) :
    render functions world template = render functions other template := by
  cases hfound : references functions.contains template with
  | error fault => rw [render, render, hfound]
  | ok found =>
    have hslots : evaluateSlots functions world (found.map (lookedUp world)) =
        evaluateSlots functions other (found.map (lookedUp other)) := by
      refine evaluateSlots_congr fun placed hplaced => ?_
      have hagrees := agrees_of_mem_references hfound hplaced
      exact evaluateSlot_eq_of_skipsRoot hworlds hagrees (h found hfound placed hplaced)
    rw [render, render, hfound]
    simp only [map_lookUp_eq, hslots]

end Template

end

/-- **Kinds of stores.** A shared document answers every look-up like the plain one, and the
bindings of the members of an object every look-up but that of the root. So values, verdicts and
messages are the same where documents are handed out whole, and where they may be handed out in
parts, the same for all that does not come to the root. -/
theorem stores_agree :
    (∀ json path, (Document.store ⟨json⟩).lookup path = json.store.lookup path) ∧
    (∀ (members : Dictionary Json) path, path ≠ Path.root →
      (Bindings.ofMembers members.entries).store.lookup path =
        (Json.object members.entries).store.lookup path) ∧
    (∀ (model state : Json) (world other : World),
      world.Shows model state → other.Shows model state →
      (∀ formula : Formula, formula.evaluate world = formula.evaluate other) ∧
      (∀ assertion : Assertion, assertion.check world = assertion.check other) ∧
      ∀ functions template,
        Template.render functions world template = Template.render functions other template) ∧
    ∀ (model state : Json) (world other : World),
      world.ShowsParts model state → other.ShowsParts model state →
      (∀ formula : Formula, formula.expr.SkipsRoot formula.functions world →
        formula.evaluate world = formula.evaluate other) ∧
      (∀ assertion : Assertion, assertion.SkipsRoot world →
        assertion.check world = assertion.check other) ∧
      ∀ functions template, Template.SkipsRoot functions world template →
        Template.render functions world template = Template.render functions other template := by
  refine ⟨Document.lookup_store, ?_, ?_, ?_⟩
  · intro members path hpath
    exact (Json.PartsStore.bound members).lookup_eq hpath
  · intro model state world other hworld hother
    obtain rfl := hworld.eq hother
    exact ⟨fun _ => rfl, fun _ => rfl, fun _ _ => rfl⟩
  · intro model state world other hworld hother
    have hworlds := hworld.agreesBelowRoot hother
    refine ⟨?_, ?_, ?_⟩
    · intro formula hformula
      exact hformula.evaluate_eq hworlds
    · intro assertion hassertion
      exact hassertion.check_eq hworlds
    · intro functions template htemplate
      exact htemplate.render_eq hworlds

/-- A reference to a member, with a document as it is and with the bindings of its members. -/
theorem stores_agree_member :
    ∃ (members : Dictionary Json) (formula : Formula),
      (Formula.compile .empty ['$', 'a']).result = .ok formula ∧
      formula.evaluate ⟨(Json.object members.entries).store, .empty⟩ = .pure (.bool true) ∧
      formula.evaluate ⟨(Bindings.ofMembers members.entries).store, Json.null.store⟩ =
        formula.evaluate ⟨(Json.object members.entries).store, Json.null.store⟩ := by
  have hread : Expr.ofText Repertoire.empty.contains ['$', 'a'] =
      .ok (.ref ⟨0, 2⟩ .model (.ofText ['a'])) :=
      ofText_path .model (List.forall_mem_singleton.2 rfl)
  refine ⟨Dictionary.empty.insert ['a'] (.bool true), ⟨_, _, .empty⟩,
    Formula.result_compile_eq_ok_iff.2 ⟨_, hread, rfl⟩, ?_, ?_⟩
  · rw [Formula.evaluate, Expr.evaluate]
    rfl
  · have hbelow := stores_agree.2.2.2
      (.object (Dictionary.empty.insert ['a'] (.bool true)).entries) .null ⟨_, _⟩ ⟨_, _⟩
      ⟨.bound _, .whole .plain⟩ ⟨.whole .plain, .whole .plain⟩
    refine hbelow.1 _ (Expr.skipsRoot_of_forall fun n hn => ?_)
    obtain rfl := List.mem_singleton.1 hn
    exact (by decide : Path.ofText ['a'] ≠ Path.root)

end Assertions
