import Assertions.Log
import Assertions.Proofs.Growth
import Assertions.Proofs.Places

/-!
# The order of calls

Which functions an evaluation calls, and in which order, can be read off the places of the
expression. An evaluation comes to every place unless something on the way down keeps it away: a
call of a name that is not registered, or a logical operator whose left operand decides the result
(`Expr.IsReached`). The nodes that it comes to are left in post-order, and each of them that has a
name leaves one event: a call with the data of its arguments, or a remark that the name is not
registered (`Expr.raised`).

`events_evaluate_eq` says this as an equation between the events and the nodes in post-order, and
`exists_trace` as a property of the list of steps.
-/

namespace Assertions.Expr

variable {functions : Repertoire} {world : World}

/-! ### Places that are reached -/

/-- Whether an evaluation of a node goes on to its child number `i`. -/
def admits (functions : Repertoire) (world : World) : Expr → Nat → Bool
  | .call _ name _, _ => functions.contains name
  | .binary .and left _, 1 => (left.evaluate functions world).value.isTruthy
  | .binary .or left _, 1 => !(left.evaluate functions world).value.isTruthy
  | _, _ => true

/-- Whether an evaluation comes to a place: every node on the way down admits the next step. -/
def IsReached (functions : Repertoire) (world : World) (e : Expr) (place : Place) : Prop :=
  ∀ front i back n, place = front ++ i :: back → e.at? front = some n →
    n.admits functions world i = true

/-- Goes down to a place, as far as the nodes on the way admit it. -/
def reaches (functions : Repertoire) (world : World) : Expr → Place → Bool
  | _, [] => true
  | e, i :: rest =>
    e.admits functions world i && (e.children[i]?).all (reaches functions world · rest)

example : (binary .and (.string ⟨0, 2⟩ []) (.statement ⟨4, 5⟩ ['f'])).reaches functions world [1] =
    false := rfl

theorem isReached_nil (e : Expr) : e.IsReached functions world [] := by
  intro front i back n hplace
  cases front <;> cases hplace

theorem isReached_cons_iff {e : Expr} {i : Nat} {rest : Place} :
    e.IsReached functions world (i :: rest) ↔
      e.admits functions world i = true ∧
        ∀ child, e.children[i]? = some child → child.IsReached functions world rest := by
  constructor
  · intro h
    refine ⟨h [] i rest e rfl rfl, ?_⟩
    intro child hchild front j back n hplace hn
    refine h (i :: front) j back n ?_ (at?_cons_eq_some_iff.2 ⟨child, hchild, hn⟩)
    rw [hplace, List.cons_append]
  · rintro ⟨hadmits, hbelow⟩ front j back n hplace hn
    cases front with
    | nil =>
      cases hplace
      cases hn
      exact hadmits
    | cons k front =>
      cases hplace
      obtain ⟨child, hchild, hn⟩ := at?_cons_eq_some_iff.1 hn
      exact hbelow child hchild front j back n rfl hn

theorem reaches_iff_isReached {e : Expr} {place : Place} :
    e.reaches functions world place = true ↔ e.IsReached functions world place := by
  induction place generalizing e with
  | nil => exact iff_of_true rfl (isReached_nil e)
  | cons i rest ih =>
    simp only [reaches, Bool.and_eq_true, Option.all_eq_true, isReached_cons_iff, ih]

instance (e : Expr) (place : Place) : Decidable (e.IsReached functions world place) :=
  decidable_of_iff _ reaches_iff_isReached

theorem reaches_cons {e child : Expr} {i : Nat} (hchild : e.children[i]? = some child)
    (rest : Place) :
    e.reaches functions world (i :: rest) =
      (e.admits functions world i && child.reaches functions world rest) := by
  rw [reaches, hchild, Option.all_some]

/-- The right operand is evaluated unless the left one decides the result. -/
theorem admits_right (op : Operator) (left right : Expr) :
    (binary op left right).admits functions world 1 =
      !op.isDecidedBy (left.evaluate functions world).value := by
  cases op with
  | and => exact (Bool.not_not _).symm
  | _ => rfl

/-! ### Events -/

/-- The data of the nodes directly below the root. -/
def operands (functions : Repertoire) (world : World) (n : Expr) : List Datum :=
  n.children.map fun child => (child.evaluate functions world).value

/-- What happens when an evaluation leaves a node. A function is called with the data of the nodes
below, a statement with none. -/
def raised (functions : Repertoire) (world : World) (n : Expr) : Option Event :=
  n.callee?.map fun name =>
    match functions.find? name with
    | none => .unregistered name
    | some (.function _) => .called name (n.operands functions world)
    | some (.statement _) => .called name []

/-- A registered function is called with the arguments that it sees. -/
theorem raised_of_callee? {n : Expr} {name : Text} {f : HostFunction}
    (hname : n.callee? = some name) (hf : functions.find? name = some f) :
    n.raised functions world = some (.called name (f.seen (n.operands functions world))) := by
  rw [raised, hname, Option.map_some, hf]
  cases f <;> rfl

/-- What happens at some nodes of an expression, as far as they are reached. -/
def happenings (functions : Repertoire) (world : World) (e : Expr)
    (sites : List (Place × Expr)) : List Event :=
  (sites.filter fun site => e.reaches functions world site.1).filterMap fun site =>
    site.2.raised functions world

theorem value_evaluateAll (list : List Expr) :
    (evaluateAll functions world list).value =
      list.map fun e => (e.evaluate functions world).value := by
  induction list with
  | nil => rfl
  | cons e rest ih => rw [evaluateAll, List.map_cons, ← ih]; rfl

theorem happenings_append (e : Expr) (a b : List (Place × Expr)) :
    e.happenings functions world (a ++ b) =
      e.happenings functions world a ++ e.happenings functions world b := by
  rw [happenings, List.filter_append, List.filterMap_append, happenings, happenings]

/-- The root is always reached. -/
theorem happenings_root (e : Expr) :
    e.happenings functions world [([], e)] = (e.raised functions world).toList := by
  show List.filterMap (fun site => site.2.raised functions world) [([], e)] = _
  cases h : e.raised functions world <;> simp [h]

/-- What happens inside a child that is admitted happens as if the child stood alone. -/
theorem happenings_under {e child : Expr} {i : Nat} (hchild : e.children[i]? = some child)
    (hadmits : e.admits functions world i = true) (sites : List (Place × Expr)) :
    e.happenings functions world (sites.map (under i)) =
      child.happenings functions world sites := by
  have hreaches : (fun site => e.reaches functions world site.1) ∘ under i =
      fun site => child.reaches functions world site.1 := by
    funext site
    show e.reaches functions world (i :: site.1) = _
    rw [reaches_cons hchild, hadmits, Bool.true_and]
  rw [happenings, List.filter_map, List.filterMap_map, hreaches]
  rfl

/-- Nothing happens below a node that admits nothing. -/
theorem happenings_eq_nil {e : Expr} {sites : List (Place × Expr)}
    (h : ∀ site ∈ sites, ∃ i rest, site.1 = i :: rest ∧ e.admits functions world i = false) :
    e.happenings functions world sites = [] := by
  have hfilter : (sites.filter fun site => e.reaches functions world site.1) = [] := by
    refine List.filter_eq_nil_iff.2 fun site hsite => ?_
    obtain ⟨i, rest, hplace, hadmits⟩ := h site hsite
    rw [hplace, reaches, hadmits, Bool.false_and]
    exact Bool.false_ne_true
  rw [happenings, hfilter, List.filterMap_nil]

/-- The arguments of a call that is made are evaluated one after the other. -/
theorem happenings_placedAll {e : Expr} (hadmits : ∀ i, e.admits functions world i = true)
    {list : List Expr} {first : Nat} (hlist : e.children.drop first = list)
    (ih : ∀ child ∈ list, (child.evaluate functions world).events =
      child.happenings functions world child.placed) :
    e.happenings functions world (placedAll first list) =
      (evaluateAll functions world list).events := by
  induction list generalizing first with
  | nil => rfl
  | cons child others ihlist =>
    obtain ⟨hchild, hothers⟩ := List.forall_mem_cons.1 ih
    have hfirst : e.children[first]? = some child := by
      rw [← Nat.add_zero first, ← List.getElem?_drop, hlist]
      rfl
    have hrest : e.children.drop (first + 1) = others := by
      rw [← List.drop_drop, hlist]
      rfl
    rw [placedAll, happenings_append, happenings_under hfirst (hadmits first), ← hchild,
      ihlist hrest hothers]
    rfl

/-- What happens in the arguments of a call: all of it if the name is registered, and nothing
otherwise. -/
theorem happenings_args {span : Span} {name : Text} {args : List Expr}
    (ih : ∀ arg ∈ args, (arg.evaluate functions world).events =
      arg.happenings functions world arg.placed) :
    (call span name args).happenings functions world (placedAll 0 args) =
      if functions.contains name then (evaluateAll functions world args).events else [] := by
  cases hname : functions.contains name with
  | true =>
    have hadmits : ∀ i, (call span name args).admits functions world i = true := fun _ => hname
    rw [if_pos rfl]
    exact happenings_placedAll hadmits rfl ih
  | false =>
    rw [if_neg Bool.false_ne_true]
    refine happenings_eq_nil ?_
    rintro ⟨place, n⟩ hsite
    obtain ⟨i, child, rest, -, hplace, -⟩ := mem_placedAll.1 hsite
    exact ⟨0 + i, rest, hplace, hname⟩

/-- What happens in the right operand: nothing if the left one decides the result. -/
theorem happenings_right {op : Operator} {left right : Expr}
    (ih : (right.evaluate functions world).events =
      right.happenings functions world right.placed) :
    (binary op left right).happenings functions world (right.placed.map (under 1)) =
      if op.isDecidedBy (left.evaluate functions world).value then []
      else (right.evaluate functions world).events := by
  have hadmits : (binary op left right).admits functions world 1 =
      !op.isDecidedBy (left.evaluate functions world).value := admits_right op left right
  cases hdecided : op.isDecidedBy (left.evaluate functions world).value with
  | true =>
    rw [hdecided] at hadmits
    refine happenings_eq_nil fun site hsite => ?_
    obtain ⟨inner, -, rfl⟩ := List.mem_map.1 hsite
    exact ⟨1, inner.1, rfl, hadmits⟩
  | false =>
    rw [hdecided] at hadmits
    rw [happenings_under rfl hadmits, ← ih]
    rfl

/-- The events of a call are those of its arguments, if it is made, and its own. -/
theorem events_call (span : Span) (name : Text) (args : List Expr) :
    ((call span name args).evaluate functions world).events =
      (if functions.contains name then (evaluateAll functions world args).events else []) ++
        ((call span name args).raised functions world).toList := by
  have hcontains : functions.contains name = (functions.find? name).isSome := rfl
  rw [evaluate, Repertoire.call, hcontains]
  cases hname : functions.find? name with
  | none => simp [raised, callee?, hname]
  | some f =>
    rw [raised_of_callee? rfl hname]
    simp only [Option.toList_some, Traced.events_andThen, value_evaluateAll]
    rfl

theorem events_binary (op : Operator) (left right : Expr) :
    ((binary op left right).evaluate functions world).events =
      (left.evaluate functions world).events ++
        if op.isDecidedBy (left.evaluate functions world).value then []
        else (right.evaluate functions world).events := by
  rw [evaluate, Traced.events_andThen]
  cases op.isDecidedBy (left.evaluate functions world).value <;> rfl

/-- **Events in post-order.** The events of an evaluation are those of the nodes that are reached,
in post-order. -/
theorem events_evaluate_eq (e : Expr) :
    (e.evaluate functions world).events = e.happenings functions world e.placed := by
  induction e with
  | ref | string | number =>
    rw [placed_eq, happenings_append, happenings_root, evaluate]
    rfl
  | statement span name =>
    rw [placed_eq, happenings_append, happenings_root, evaluate, Repertoire.call]
    cases hname : functions.find? name with
    | none =>
      rw [raised, callee?, Option.map_some, hname]
      rfl
    | some f =>
      rw [raised_of_callee? rfl hname]
      rfl
  | call span name args ih =>
    rw [placed, happenings_append, happenings_args ih, happenings_root, events_call]
  | binary op left right ihl ihr =>
    have hleft : (binary op left right).admits functions world 0 = true := by cases op <;> rfl
    rw [placed, happenings_append, happenings_append, happenings_under rfl hleft,
      happenings_right ihr, happenings_root, events_binary, ← ihl]
    exact (List.append_nil _).symm
  | group span inner ih =>
    rw [placed, happenings_append, happenings_under rfl rfl, happenings_root, evaluate, ih]
    exact (List.append_nil _).symm

/-- The value of a call is that of the function for the data of the arguments. -/
theorem value_evaluate_of_callee? {n : Expr} {name : Text} {f : HostFunction}
    (hname : n.callee? = some name) (hf : functions.find? name = some f) :
    (n.evaluate functions world).value = f.result world (n.operands functions world) := by
  cases n with
  | statement span own =>
    cases hname
    rw [evaluate, Repertoire.call, hf]
    rfl
  | call span own args =>
    cases hname
    rw [evaluate, Repertoire.call, hf]
    show f.result world (evaluateAll functions world args).value = _
    rw [value_evaluateAll]
    rfl
  | ref | string | number | binary | group => cases hname

/-! ### Traces -/

/-- The steps of an evaluation: nodes that are left, with their places, and what happens there. -/
abbrev Steps := List ((Place × Expr) × Event)

/-- Whether a list of steps is what an evaluation of an expression goes through. -/
structure IsTrace (functions : Repertoire) (world : World) (e : Expr) (trace : Steps) : Prop where
  /-- The steps are made at nodes of the expression in post-order. -/
  sublist : (trace.map Prod.fst).Sublist e.placed
  /-- No place comes up twice. -/
  nodup : (trace.map fun step => step.1.1).Nodup
  /-- A step is made exactly at those nodes that are reached and have a name. -/
  mem_iff : ∀ place n event, ((place, n), event) ∈ trace ↔
    e.at? place = some n ∧ e.IsReached functions world place ∧
      n.raised functions world = some event

/-- The nodes at which something happens stand in the order in which they were gone through. -/
theorem sublist_filterMap_map (sites : List (Place × Expr)) :
    ((sites.filterMap fun site => (site.2.raised functions world).map (site, ·)).map
      Prod.fst).Sublist sites := by
  induction sites with
  | nil => exact .slnil
  | cons site rest ih =>
    cases h : site.2.raised functions world with
    | none =>
      rw [List.filterMap_cons_none (by rw [h]; rfl)]
      exact ih.cons site
    | some event =>
      rw [List.filterMap_cons_some (by rw [h]; rfl)]
      exact ih.cons_cons site

/-- The steps of an evaluation, in post-order. -/
def trace (functions : Repertoire) (world : World) (e : Expr) : Steps :=
  (e.placed.filter fun site => e.reaches functions world site.1).filterMap fun site =>
    (site.2.raised functions world).map (site, ·)

theorem isTrace_trace (e : Expr) : e.IsTrace functions world (e.trace functions world) := by
  have hsublist : ((e.trace functions world).map Prod.fst).Sublist e.placed :=
    (sublist_filterMap_map _).trans List.filter_sublist
  have hplaces := hsublist.map Prod.fst
  rw [List.map_map] at hplaces
  refine ⟨hsublist, (nodup_placed e).sublist hplaces, ?_⟩
  intro place n event
  simp only [trace, List.mem_filterMap, List.mem_filter, Option.map_eq_some_iff, Prod.mk.injEq,
    reaches_iff_isReached]
  constructor
  · rintro ⟨site, ⟨hplaced, hreached⟩, event, hraised, rfl, rfl⟩
    exact ⟨mem_placed.1 hplaced, hreached, hraised⟩
  · rintro ⟨hat, hreached, hraised⟩
    exact ⟨(place, n), ⟨mem_placed.2 hat, hreached⟩, event, hraised, rfl, rfl⟩

theorem events_evaluate_eq_map_trace (e : Expr) :
    (e.evaluate functions world).events = (e.trace functions world).map Prod.snd := by
  rw [events_evaluate_eq, happenings, trace, List.map_filterMap]
  congr 1
  funext site
  rw [Option.map_map]
  exact Option.map_id'.symm

/-- A node that leaves an event has a name. It is remarked if the name is not registered. Otherwise
a function is called with the data of the arguments or a statement with none, and gives the value of
the node. -/
theorem exists_callee_of_raised {n : Expr} {event : Event}
    (h : n.raised functions world = some event) :
    ∃ name, n.callee? = some name ∧
      (functions.find? name = none ∧ event = .unregistered name ∨
        (∃ run, functions.find? name = some (.function run) ∧
          event = .called name (n.operands functions world) ∧
          (n.evaluate functions world).value = run world (n.operands functions world)) ∨
        ∃ run, functions.find? name = some (.statement run) ∧ event = .called name [] ∧
          (n.evaluate functions world).value = run world) := by
  obtain ⟨name, hname, rfl⟩ := Option.map_eq_some_iff.1 h
  refine ⟨name, hname, ?_⟩
  cases hf : functions.find? name with
  | none => exact .inl ⟨rfl, rfl⟩
  | some f =>
    have hvalue : (n.evaluate functions world).value =
        f.result world (n.operands functions world) := value_evaluate_of_callee? hname hf
    cases f with
    | function run => exact .inr (.inl ⟨run, rfl, rfl, hvalue⟩)
    | statement run => exact .inr (.inr ⟨run, rfl, rfl, hvalue⟩)

/-- **Order of calls.** An evaluation goes through the nodes of an expression in post-order, each
at most once. Something happens exactly at those nodes with a name that are inside no call of a name
that is not registered, and not in a right operand that the left one makes superfluous: a function
that is registered is called with the data of its own arguments, a statement with none, and gives
the value of the node, and a name that is not registered is remarked. The log has an entry for each
remark, in this order. -/
theorem exists_trace (functions : Repertoire) (world : World) (e : Expr) :
    ∃ trace, e.IsTrace functions world trace ∧
      (e.evaluate functions world).events = trace.map Prod.snd ∧
      logEntries (e.evaluate functions world).events =
        (trace.filterMap fun step => Event.logEntry? step.2) ∧
      ∀ place n event, ((place, n), event) ∈ trace →
        ∃ name, n.callee? = some name ∧
          (functions.find? name = none ∧ event = .unregistered name ∨
            (∃ run, functions.find? name = some (.function run) ∧
              event = .called name (n.operands functions world) ∧
              (n.evaluate functions world).value = run world (n.operands functions world)) ∨
            ∃ run, functions.find? name = some (.statement run) ∧ event = .called name [] ∧
              (n.evaluate functions world).value = run world) := by
  have hevents : (e.evaluate functions world).events = (e.trace functions world).map Prod.snd :=
    events_evaluate_eq_map_trace e
  refine ⟨e.trace functions world, isTrace_trace e, hevents, ?_, ?_⟩
  · rw [hevents, logEntries, List.filterMap_map]
    rfl
  · intro place n event hstep
    obtain ⟨-, -, hraised⟩ := ((isTrace_trace e).mem_iff place n event).1 hstep
    exact exists_callee_of_raised hraised

end Assertions.Expr
