import Assertions.Proofs.Growth
import Assertions.Proofs.Places

/-!
# Groups put around nodes

`Expr.groupAt` puts a group around the node at a place. A group has the value of what is inside it,
so nothing changes for an evaluation, and no operator needs more brackets than before. As spans do
not matter for an evaluation either, two expressions that differ in their spans only
(`Expr.bare`) evaluate in the same way.

The tokens of a call's arguments are read apart from those around the call. `Expr.fragmentAt` is the
part of an expression whose tokens are read together with the node at a place.
-/

namespace Assertions.Expr

variable {functions : Repertoire} {world : World}

/-! ### Expressions without spans -/

/-- The expression with all spans made the same. -/
def bare (e : Expr) : Expr := e.mapSpans fun _ => ⟨0, 0⟩

theorem bare_call (span : Span) (name : Text) (args : List Expr) :
    (call span name args).bare = .call ⟨0, 0⟩ name (args.map bare) := by
  rw [bare, mapSpans, mapSpansAll_eq_map]
  rfl

theorem bare_binary (op : Operator) (left right : Expr) :
    (binary op left right).bare = .binary op left.bare right.bare := rfl

theorem bare_group (span : Span) (inner : Expr) :
    (group span inner).bare = .group ⟨0, 0⟩ inner.bare := rfl

theorem bare_shift (offset : Nat) (e : Expr) : (e.shift offset).bare = e.bare := by
  rw [bare, shift_eq_mapSpans, mapSpans_mapSpans]
  rfl

theorem evaluateAll_mapSpansAll {f : Span → Span} {list : List Expr}
    (h : ∀ e ∈ list, (e.mapSpans f).evaluate functions world = e.evaluate functions world) :
    evaluateAll functions world (mapSpansAll f list) = evaluateAll functions world list := by
  induction list with
  | nil => rfl
  | cons e rest ih =>
    obtain ⟨he, hrest⟩ := List.forall_mem_cons.1 h
    rw [mapSpansAll, evaluateAll, evaluateAll, he, ih hrest]

/-- An evaluation does not look at spans. -/
theorem evaluate_mapSpans (f : Span → Span) (e : Expr) :
    (e.mapSpans f).evaluate functions world = e.evaluate functions world := by
  induction e with
  | ref | string | number | statement => simp only [mapSpans, evaluate]
  | call span name args ih => rw [mapSpans, evaluate, evaluate, evaluateAll_mapSpansAll ih]
  | binary op left right ihl ihr => rw [mapSpans, evaluate, evaluate, ihl, ihr]
  | group span inner ih => rw [mapSpans, evaluate, evaluate, ih]

variable {a b : Expr} (h : a.bare = b.bare)
include h

theorem evaluate_eq_of_bare_eq : a.evaluate functions world = b.evaluate functions world := by
  rw [← evaluate_mapSpans (fun _ => ⟨0, 0⟩) a, ← evaluate_mapSpans (fun _ => ⟨0, 0⟩) b]
  exact congrArg (evaluate functions world) h

theorem nesting_eq_of_bare_eq : a.nesting = b.nesting := by
  rw [← nesting_mapSpans (fun _ => ⟨0, 0⟩) a, ← nesting_mapSpans (fun _ => ⟨0, 0⟩) b]
  exact congrArg nesting h

theorem isOrdered_of_bare_eq (hb : b.IsOrdered) : a.IsOrdered := by
  have hbare : a.bare.IsOrdered := by
    rw [h]
    exact isOrdered_mapSpans.2 hb
  exact isOrdered_mapSpans.1 hbare

omit h

/-! ### Groups -/

/-- The expression with a group put around the node at a place. -/
def groupAt : Expr → Place → Expr
  | e, [] => .group e.span e
  | .call span name args, i :: rest => .call span name (args.modify i (groupAt · rest))
  | .binary op left right, 0 :: rest => .binary op (left.groupAt rest) right
  | .binary op left right, 1 :: rest => .binary op left (right.groupAt rest)
  | .group span inner, 0 :: rest => .group span (inner.groupAt rest)
  | e, _ :: _ => e

/-- The part of an expression whose tokens are read together with the node at a place: the innermost
argument of a call that the node is in, or else all there is. -/
def fragmentAt (whole : Expr) : Expr → Place → Expr
  | _, [] => whole
  | .call _ _ args, i :: rest =>
    match args[i]? with
    | some arg => fragmentAt arg arg rest
    | none => whole
  | e, i :: rest =>
    match e.children[i]? with
    | some child => fragmentAt whole child rest
    | none => whole

theorem bindsAtLeast_groupAt {strength : Nat} {e : Expr} (h : e.BindsAtLeast strength)
    (place : Place) : (e.groupAt place).BindsAtLeast strength := by
  unfold groupAt
  split <;> first | exact h | trivial

/-- A group that is added to an argument leaves the other arguments. -/
theorem forall_mem_modify {P : Expr → Prop} {f : Expr → Expr} {list : List Expr} {i : Nat}
    (h : ∀ e ∈ list, P e) (hf : ∀ e ∈ list, P (f e)) : ∀ e ∈ list.modify i f, P e := by
  induction list generalizing i with
  | nil =>
    rw [List.modify_nil]
    exact nofun
  | cons first others ih =>
    obtain ⟨hfirst, hothers⟩ := List.forall_mem_cons.1 h
    obtain ⟨hffirst, hfothers⟩ := List.forall_mem_cons.1 hf
    cases i with
    | zero => exact List.forall_mem_cons.2 ⟨hffirst, hothers⟩
    | succ i => exact List.forall_mem_cons.2 ⟨hfirst, ih hothers hfothers⟩

/-- A group needs no brackets. -/
theorem IsOrdered.groupAt {e : Expr} (h : e.IsOrdered) (place : Place) :
    (e.groupAt place).IsOrdered := by
  fun_induction Expr.groupAt e place with
  | case1 e => exact isOrdered_group.2 h
  | case2 span name args i rest ih =>
    have hargs := isOrdered_call.1 h
    exact isOrdered_call.2 (forall_mem_modify hargs fun arg harg => ih arg (hargs arg harg))
  | case3 op left right rest ih =>
    obtain ⟨⟨hl, hr⟩, hleft, hright⟩ := isOrdered_binary.1 h
    exact isOrdered_binary.2 ⟨⟨bindsAtLeast_groupAt hl rest, hr⟩, ih hleft, hright⟩
  | case4 op left right rest ih =>
    obtain ⟨⟨hl, hr⟩, hleft, hright⟩ := isOrdered_binary.1 h
    exact isOrdered_binary.2 ⟨⟨hl, bindsAtLeast_groupAt hr rest⟩, hleft, ih hright⟩
  | case5 span inner rest ih => exact isOrdered_group.2 (ih (isOrdered_group.1 h))
  | case6 => exact h

theorem evaluateAll_modify {f : Expr → Expr}
    (h : ∀ e, (f e).evaluate functions world = e.evaluate functions world) (list : List Expr)
    (i : Nat) :
    evaluateAll functions world (list.modify i f) = evaluateAll functions world list := by
  induction list generalizing i with
  | nil => rw [List.modify_nil]
  | cons e rest ih =>
    cases i with
    | zero => rw [List.modify_zero_cons, evaluateAll, evaluateAll, h e]
    | succ i => rw [List.modify_succ_cons, evaluateAll, evaluateAll, ih i]

/-- A group changes nothing for an evaluation. -/
theorem evaluate_groupAt (e : Expr) (place : Place) :
    (e.groupAt place).evaluate functions world = e.evaluate functions world := by
  fun_induction groupAt e place with
  | case1 e => rw [evaluate]
  | case2 span name args i rest ih => rw [evaluate, evaluate, evaluateAll_modify ih]
  | case3 op left right rest ih => rw [evaluate, evaluate, ih]
  | case4 op left right rest ih => rw [evaluate, evaluate, ih]
  | case5 span inner rest ih => rw [evaluate, evaluate, ih]
  | case6 => rfl

end Assertions.Expr
