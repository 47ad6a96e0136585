import Assertions.Expr

/-!
# The nodes of an expression

An expression is a tree with lists of subtrees in it, namely the arguments of calls.
`Expr.inductionOn` is induction over such trees, in which a call may assume the statement of each of
its arguments.

* `Expr.nodes`: the expression and everything inside it, arguments included;
* `Expr.IsOrdered`: no operand of an operator would have to be put in brackets;
* `Expr.nesting`: how many brackets and calls are inside each other.

The last two do not look at spans, so changing spans leaves them as they are (`Expr.mapSpans`), and
moving an expression in particular.
-/

namespace Assertions.Expr

/-- Induction over expressions. The arguments of a call are known one by one. -/
@[elab_as_elim, induction_eliminator]
theorem inductionOn {motive : Expr → Prop}
    (ref : ∀ span side path, motive (.ref span side path))
    (string : ∀ span content, motive (.string span content))
    (number : ∀ span value, motive (.number span value))
    (statement : ∀ span name, motive (.statement span name))
    (call : ∀ span name args, (∀ arg ∈ args, motive arg) → motive (.call span name args))
    (binary : ∀ op left right, motive left → motive right → motive (.binary op left right))
    (group : ∀ span inner, motive inner → motive (.group span inner)) :
    (e : Expr) → motive e
  | .ref span side path => ref span side path
  | .string span content => string span content
  | .number span value => number span value
  | .statement span name => statement span name
  | .call span name args =>
    call span name args fun arg _ =>
      inductionOn ref string number statement call binary group arg
  | .binary op left right =>
    binary op left right (inductionOn ref string number statement call binary group left)
      (inductionOn ref string number statement call binary group right)
  | .group span inner =>
    group span inner (inductionOn ref string number statement call binary group inner)

/-! ### Nodes -/

mutual

/-- An expression and everything inside it, from the outside to the inside and from left to
right. -/
def nodes : Expr → List Expr
  | .ref span side path => [.ref span side path]
  | .string span content => [.string span content]
  | .number span value => [.number span value]
  | .statement span name => [.statement span name]
  | .call span name args => .call span name args :: nodesAll args
  | .binary op left right => .binary op left right :: (nodes left ++ nodes right)
  | .group span inner => .group span inner :: nodes inner

/-- The nodes of several expressions. -/
def nodesAll : List Expr → List Expr
  | [] => []
  | e :: rest => nodes e ++ nodesAll rest

end

/-- The nodes directly below the root, from left to right. -/
def children : Expr → List Expr
  | .call _ _ args => args
  | .binary _ left right => [left, right]
  | .group _ inner => [inner]
  | .ref .. | .string .. | .number .. | .statement .. => []

theorem mem_nodesAll {n : Expr} {list : List Expr} :
    n ∈ nodesAll list ↔ ∃ e ∈ list, n ∈ e.nodes := by
  induction list with
  | nil => simp [nodesAll]
  | cons e rest ih => simp [nodesAll, ih]

/-- An expression with nothing below its root is its only node. -/
theorem nodes_of_children_eq_nil {e : Expr} (h : e.children = []) : e.nodes = [e] := by
  cases e with
  | ref | string | number | statement => rfl
  | call span name args =>
    cases (show args = [] from h)
    rfl
  | binary | group => cases h

theorem mem_nodes_self (e : Expr) : e ∈ e.nodes := by
  cases e with
  | ref | string | number | statement => exact List.mem_singleton_self _
  | call | binary | group => exact List.mem_cons_self

theorem mem_nodes_of_mem_children {e child : Expr} (h : child ∈ e.children) : child ∈ e.nodes := by
  cases e with
  | ref | string | number | statement => cases h
  | call span name args =>
    exact List.mem_cons_of_mem _ (mem_nodesAll.2 ⟨child, h, mem_nodes_self child⟩)
  | binary op left right =>
    apply List.mem_cons_of_mem
    rcases List.mem_cons.1 h with rfl | hright
    · exact List.mem_append_left _ (mem_nodes_self child)
    · cases List.mem_singleton.1 hright
      exact List.mem_append_right _ (mem_nodes_self child)
  | group span inner =>
    cases List.mem_singleton.1 h
    exact List.mem_cons_of_mem _ (mem_nodes_self child)

/-- The nodes of a node are nodes of the whole. -/
theorem mem_nodes_trans {n inner e : Expr} (hn : n ∈ inner.nodes) (hinner : inner ∈ e.nodes) :
    n ∈ e.nodes := by
  induction e with
  | ref | string | number | statement =>
    cases List.mem_singleton.1 hinner
    exact hn
  | call span name args ih =>
    rcases List.mem_cons.1 hinner with rfl | hargs
    · exact hn
    · obtain ⟨arg, harg, hmem⟩ := mem_nodesAll.1 hargs
      exact List.mem_cons_of_mem _ (mem_nodesAll.2 ⟨arg, harg, ih arg harg hmem⟩)
  | binary op left right ihl ihr =>
    rcases List.mem_cons.1 hinner with rfl | hbelow
    · exact hn
    · apply List.mem_cons_of_mem
      rcases List.mem_append.1 hbelow with hleft | hright
      · exact List.mem_append_left _ (ihl hleft)
      · exact List.mem_append_right _ (ihr hright)
  | group span inner ih =>
    rcases List.mem_cons.1 hinner with rfl | hbelow
    · exact hn
    · exact List.mem_cons_of_mem _ (ih hbelow)

/-! ### Order of operators -/

/-- Whether an expression may stand beside an operator of a given strength without brackets: its
root is no binary operator that binds less. -/
def BindsAtLeast (strength : Nat) : Expr → Prop
  | .binary op _ _ => strength ≤ op.precedence
  | _ => True

/-- No operator binds less than the weakest. -/
theorem bindsAtLeast_one (e : Expr) : e.BindsAtLeast 1 := by
  cases e with
  | binary op left right => exact op.precedence_pos
  | _ => trivial

/-- Whether everywhere in an expression the left operand of an operator is no binary expression
that binds less, and the right operand none that binds less or equally. -/
def IsOrdered (e : Expr) : Prop :=
  ∀ op left right, .binary op left right ∈ e.nodes →
    left.BindsAtLeast op.precedence ∧ right.BindsAtLeast (op.precedence + 1)

theorem isOrdered_call {span : Span} {name : Text} {args : List Expr} :
    (call span name args).IsOrdered ↔ ∀ arg ∈ args, arg.IsOrdered := by
  simp only [IsOrdered, nodes, List.mem_cons, mem_nodesAll, reduceCtorEq, false_or]
  constructor
  · intro h arg harg op left right hmem
    exact h op left right ⟨arg, harg, hmem⟩
  · intro h op left right ⟨arg, harg, hmem⟩
    exact h arg harg op left right hmem

theorem isOrdered_group {span : Span} {inner : Expr} :
    (group span inner).IsOrdered ↔ inner.IsOrdered := by
  simp only [IsOrdered, nodes, List.mem_cons, reduceCtorEq, false_or]

theorem isOrdered_binary {op : Operator} {left right : Expr} :
    (binary op left right).IsOrdered ↔
      (left.BindsAtLeast op.precedence ∧ right.BindsAtLeast (op.precedence + 1)) ∧
        left.IsOrdered ∧ right.IsOrdered := by
  simp only [IsOrdered, nodes, List.mem_cons, List.mem_append]
  constructor
  · intro h
    refine ⟨h op left right (.inl rfl), ?_, ?_⟩
    · intro o l r hmem
      exact h o l r (.inr (.inl hmem))
    · intro o l r hmem
      exact h o l r (.inr (.inr hmem))
  · rintro ⟨hroot, hleft, hright⟩ o l r (heq | hmem | hmem)
    · cases heq
      exact hroot
    · exact hleft o l r hmem
    · exact hright o l r hmem

/-- An expression whose only node is not binary is ordered. -/
theorem isOrdered_of_nodes_eq {e : Expr} (h : e.nodes = [e])
    (hleaf : ∀ op left right, e ≠ .binary op left right) : e.IsOrdered := by
  intro op left right hmem
  rw [h, List.mem_singleton] at hmem
  exact absurd hmem.symm (hleaf op left right)

theorem IsOrdered.of_mem_nodes {n e : Expr} (h : e.IsOrdered) (hn : n ∈ e.nodes) :
    n.IsOrdered := by
  intro op left right hmem
  exact h op left right (mem_nodes_trans hmem hn)

/-! ### Nesting -/

mutual

/-- How many groups and calls are inside each other, at most. -/
def nesting : Expr → Nat
  | .ref .. | .string .. | .number .. | .statement .. => 0
  | .call _ _ args => nestingAll args + 1
  | .binary _ left right => max (nesting left) (nesting right)
  | .group _ inner => nesting inner + 1

/-- The largest nesting of several expressions. -/
def nestingAll : List Expr → Nat
  | [] => 0
  | e :: rest => max (nesting e) (nestingAll rest)

end

theorem nestingAll_le {list : List Expr} {bound : Nat} :
    nestingAll list ≤ bound ↔ ∀ e ∈ list, e.nesting ≤ bound := by
  induction list with
  | nil => simp [nestingAll]
  | cons e rest ih => simp only [nestingAll, Nat.max_le, ih, List.forall_mem_cons]

/-- An expression with nothing below its root has the brackets of one call at most. -/
theorem nesting_le_one_of_children_eq_nil {e : Expr} (h : e.children = []) : e.nesting ≤ 1 := by
  cases e with
  | ref | string | number | statement => exact Nat.zero_le 1
  | call span name args =>
    cases (show args = [] from h)
    exact Nat.le_refl 1
  | binary | group => cases h

theorem nesting_le_of_mem_nodes {n e : Expr} (hn : n ∈ e.nodes) : n.nesting ≤ e.nesting := by
  induction e with
  | ref | string | number | statement =>
    cases List.mem_singleton.1 hn
    exact Nat.le_refl _
  | call span name args ih =>
    rcases List.mem_cons.1 hn with rfl | hargs
    · exact Nat.le_refl _
    · obtain ⟨arg, harg, hmem⟩ := mem_nodesAll.1 hargs
      have harg' := nestingAll_le.1 (Nat.le_refl (nestingAll args)) arg harg
      have hn' := ih arg harg hmem
      rw [nesting]
      omega
  | binary op left right ihl ihr =>
    rcases List.mem_cons.1 hn with rfl | hbelow
    · exact Nat.le_refl _
    · rw [nesting]
      rcases List.mem_append.1 hbelow with hleft | hright
      · exact Nat.le_trans (ihl hleft) (Nat.le_max_left _ _)
      · exact Nat.le_trans (ihr hright) (Nat.le_max_right _ _)
  | group span inner ih =>
    rcases List.mem_cons.1 hn with rfl | hbelow
    · exact Nat.le_refl _
    · exact Nat.le_succ_of_le (ih hbelow)

/-! ### Changed spans -/

mutual

/-- The expression with every span changed in one way. -/
def mapSpans (f : Span → Span) : Expr → Expr
  | .ref span side path => .ref (f span) side path
  | .string span content => .string (f span) content
  | .number span value => .number (f span) value
  | .statement span name => .statement (f span) name
  | .call span name args => .call (f span) name (mapSpansAll f args)
  | .binary op left right => .binary op (mapSpans f left) (mapSpans f right)
  | .group span inner => .group (f span) (mapSpans f inner)

/-- Several expressions with every span changed. -/
def mapSpansAll (f : Span → Span) : List Expr → List Expr
  | [] => []
  | e :: rest => mapSpans f e :: mapSpansAll f rest

end

variable {f : Span → Span}

theorem mapSpansAll_eq_map (f : Span → Span) (list : List Expr) :
    mapSpansAll f list = list.map (mapSpans f) := by
  induction list with
  | nil => rfl
  | cons e rest ih => rw [mapSpansAll, ih, List.map_cons]

theorem nodesAll_mapSpansAll {list : List Expr}
    (h : ∀ e ∈ list, (e.mapSpans f).nodes = e.nodes.map (mapSpans f)) :
    nodesAll (mapSpansAll f list) = (nodesAll list).map (mapSpans f) := by
  induction list with
  | nil => rfl
  | cons e rest ih =>
    obtain ⟨he, hrest⟩ := List.forall_mem_cons.1 h
    rw [mapSpansAll, nodesAll, nodesAll, ih hrest, he, List.map_append]

/-- The nodes of an expression with changed spans are the nodes with changed spans. -/
theorem nodes_mapSpans (f : Span → Span) (e : Expr) :
    (e.mapSpans f).nodes = e.nodes.map (mapSpans f) := by
  induction e with
  | ref | string | number | statement => rfl
  | call span name args ih =>
    simp only [mapSpans, nodes, List.map_cons, nodesAll_mapSpansAll ih]
  | binary op left right ihl ihr =>
    simp only [mapSpans, nodes, List.map_cons, List.map_append, ihl, ihr]
  | group span inner ih => simp only [mapSpans, nodes, List.map_cons, ih]

theorem bindsAtLeast_mapSpans {strength : Nat} {e : Expr} :
    (e.mapSpans f).BindsAtLeast strength ↔ e.BindsAtLeast strength := by
  cases e <;> exact Iff.rfl

theorem eq_binary_of_mapSpans {op : Operator} {e left right : Expr}
    (h : e.mapSpans f = .binary op left right) :
    ∃ l r, e = .binary op l r ∧ left = l.mapSpans f ∧ right = r.mapSpans f := by
  cases e <;> cases h
  exact ⟨_, _, rfl, rfl, rfl⟩

/-- The order of operators does not depend on spans. -/
theorem isOrdered_mapSpans {e : Expr} : (e.mapSpans f).IsOrdered ↔ e.IsOrdered := by
  unfold IsOrdered
  rw [nodes_mapSpans]
  constructor
  · intro h op left right hmem
    have hchanged := h op (left.mapSpans f) (right.mapSpans f)
      (List.mem_map_of_mem (f := mapSpans f) hmem)
    rwa [bindsAtLeast_mapSpans, bindsAtLeast_mapSpans] at hchanged
  · intro h op left right hmem
    obtain ⟨n, hn, heq⟩ := List.mem_map.1 hmem
    obtain ⟨l, r, rfl, rfl, rfl⟩ := eq_binary_of_mapSpans heq
    rw [bindsAtLeast_mapSpans, bindsAtLeast_mapSpans]
    exact h op l r hn

theorem nestingAll_mapSpansAll {list : List Expr}
    (h : ∀ e ∈ list, (e.mapSpans f).nesting = e.nesting) :
    nestingAll (mapSpansAll f list) = nestingAll list := by
  induction list with
  | nil => rfl
  | cons e rest ih =>
    obtain ⟨he, hrest⟩ := List.forall_mem_cons.1 h
    rw [mapSpansAll, nestingAll, nestingAll, ih hrest, he]

/-- The nesting does not depend on spans. -/
theorem nesting_mapSpans (f : Span → Span) (e : Expr) : (e.mapSpans f).nesting = e.nesting := by
  induction e with
  | ref | string | number | statement => rfl
  | call span name args ih => rw [mapSpans, nesting, nesting, nestingAll_mapSpansAll ih]
  | binary op left right ihl ihr => rw [mapSpans, nesting, nesting, ihl, ihr]
  | group span inner ih => rw [mapSpans, nesting, nesting, ih]

theorem mapSpans_mapSpans (f g : Span → Span) (e : Expr) :
    (e.mapSpans f).mapSpans g = e.mapSpans (g ∘ f) := by
  induction e with
  | ref | string | number | statement => rfl
  | call span name args ih =>
    have hargs : mapSpansAll g (mapSpansAll f args) = mapSpansAll (g ∘ f) args := by
      simp only [mapSpansAll_eq_map, List.map_map, List.map_inj_left]
      exact ih
    rw [mapSpans, mapSpans, mapSpans, hargs]
    rfl
  | binary op left right ihl ihr => rw [mapSpans, mapSpans, mapSpans, ihl, ihr]
  | group span inner ih =>
    rw [mapSpans, mapSpans, mapSpans, ih]
    rfl

/-! ### Moved expressions -/

theorem shiftAll_eq_mapSpansAll {offset : Nat} {list : List Expr}
    (h : ∀ e ∈ list, e.shift offset = e.mapSpans (·.shift offset)) :
    shiftAll offset list = mapSpansAll (·.shift offset) list := by
  induction list with
  | nil => rfl
  | cons e rest ih =>
    obtain ⟨he, hrest⟩ := List.forall_mem_cons.1 h
    rw [shiftAll, mapSpansAll, ih hrest, he]

/-- Moving an expression changes its spans and nothing else. -/
theorem shift_eq_mapSpans (offset : Nat) (e : Expr) :
    e.shift offset = e.mapSpans (·.shift offset) := by
  induction e with
  | ref | string | number | statement => rfl
  | call span name args ih => rw [shift, mapSpans, shiftAll_eq_mapSpansAll ih]
  | binary op left right ihl ihr => rw [shift, mapSpans, ihl, ihr]
  | group span inner ih => rw [shift, mapSpans, ih]

/-- Moving an expression keeps the order of its operators. -/
theorem isOrdered_shift {offset : Nat} {e : Expr} :
    (e.shift offset).IsOrdered ↔ e.IsOrdered := by
  rw [shift_eq_mapSpans]
  exact isOrdered_mapSpans

/-- Moving an expression keeps its nesting. -/
theorem nesting_shift (offset : Nat) (e : Expr) : (e.shift offset).nesting = e.nesting := by
  rw [shift_eq_mapSpans, nesting_mapSpans]

end Assertions.Expr
