import Assertions.Proofs.Tree

/-!
# Places in an expression

Equal subtrees may stand at several places of an expression, so what happens to one node is said of
its place: the way down from the root, as the number of the child to go to at each step.

* `Expr.at?`: the node at a place;
* `Expr.placed`: all nodes with their places in post-order, each node after everything inside it.

Every node has a place (`exists_at?_of_mem_nodes`), and the places in post-order are those of the
nodes, each one once (`mem_placed`, `nodup_placed`).
-/

namespace Assertions

/-- The way from the root to a node. -/
abbrev Place := List Nat

namespace Expr

/-- Induction over expressions by their children. -/
theorem inductionOnChildren {motive : Expr → Prop}
    (step : ∀ n, (∀ child ∈ n.children, motive child) → motive n) (e : Expr) : motive e := by
  induction e with
  | ref | string | number | statement => exact step _ nofun
  | call span name args ih => exact step _ ih
  | binary op left right ihl ihr =>
    refine step _ (List.forall_mem_cons.2 ⟨ihl, List.forall_mem_singleton.2 ihr⟩)
  | group span inner ih => exact step _ (List.forall_mem_singleton.2 ih)

/-! ### Nodes at places -/

/-- The node at a place, if the place is inside the expression. -/
def at? : Expr → Place → Option Expr
  | e, [] => some e
  | e, i :: rest => (e.children[i]?).bind (at? · rest)

@[simp] theorem at?_nil (e : Expr) : e.at? [] = some e := rfl

theorem at?_cons_eq_some_iff {e n : Expr} {i : Nat} {rest : Place} :
    e.at? (i :: rest) = some n ↔ ∃ child, e.children[i]? = some child ∧ child.at? rest = some n :=
  Option.bind_eq_some_iff

theorem mem_nodes_of_at? {e n : Expr} {place : Place} (h : e.at? place = some n) : n ∈ e.nodes := by
  induction place generalizing e with
  | nil =>
    obtain rfl := Option.some.inj h
    exact mem_nodes_self _
  | cons i rest ih =>
    obtain ⟨child, hchild, hrest⟩ := at?_cons_eq_some_iff.1 h
    have hmem : child ∈ e.children := List.mem_of_getElem? hchild
    exact mem_nodes_trans (ih hrest) (mem_nodes_of_mem_children hmem)

/-- A node is the root or inside one of the root's children. -/
theorem eq_or_exists_of_mem_nodes {e n : Expr} (h : n ∈ e.nodes) :
    n = e ∨ ∃ child ∈ e.children, n ∈ child.nodes := by
  cases e with
  | ref | string | number | statement => exact .inl (List.mem_singleton.1 h)
  | call span name args => exact (List.mem_cons.1 h).imp_right mem_nodesAll.1
  | binary op left right =>
    refine (List.mem_cons.1 h).imp_right fun hbelow => ?_
    rcases List.mem_append.1 hbelow with hleft | hright
    · exact ⟨left, List.mem_cons_self, hleft⟩
    · exact ⟨right, List.mem_cons_of_mem _ List.mem_cons_self, hright⟩
  | group span inner =>
    exact (List.mem_cons.1 h).imp_right fun hbelow => ⟨inner, List.mem_cons_self, hbelow⟩

theorem exists_at?_of_mem_nodes {e n : Expr} (h : n ∈ e.nodes) :
    ∃ place, e.at? place = some n := by
  induction e using inductionOnChildren with
  | step e ih =>
    rcases eq_or_exists_of_mem_nodes h with rfl | ⟨child, hchild, hn⟩
    · exact ⟨[], rfl⟩
    · obtain ⟨rest, hrest⟩ := ih child hchild hn
      obtain ⟨i, hi⟩ := List.getElem?_of_mem hchild
      exact ⟨i :: rest, at?_cons_eq_some_iff.2 ⟨child, hi, hrest⟩⟩

/-! ### Post-order -/

/-- A placed node of child number `i`, as a placed node of the whole. -/
def under (i : Nat) (site : Place × Expr) : Place × Expr := (i :: site.1, site.2)

mutual

/-- The nodes with their places in post-order: what is inside a node comes before it, from left to
right. -/
def placed : Expr → List (Place × Expr)
  | .ref span side path => [([], .ref span side path)]
  | .string span content => [([], .string span content)]
  | .number span value => [([], .number span value)]
  | .statement span name => [([], .statement span name)]
  | .call span name args => placedAll 0 args ++ [([], .call span name args)]
  | .binary op left right =>
    (placed left).map (under 0) ++ (placed right).map (under 1) ++ [([], .binary op left right)]
  | .group span inner => (placed inner).map (under 0) ++ [([], .group span inner)]

/-- The placed nodes of several children, of which the first has number `first`. -/
def placedAll (first : Nat) : List Expr → List (Place × Expr)
  | [] => []
  | e :: rest => (placed e).map (under first) ++ placedAll (first + 1) rest

end

/-- The root comes after what is inside its children. -/
theorem placed_eq (e : Expr) : e.placed = placedAll 0 e.children ++ [([], e)] := by
  cases e with
  | ref | string | number | statement | call => rfl
  | binary op left right => simp only [placed, children, placedAll, List.append_nil]
  | group span inner => simp only [placed, children, placedAll, List.append_nil]

theorem mem_placedAll {first : Nat} {list : List Expr} {place : Place} {n : Expr} :
    (place, n) ∈ placedAll first list ↔
      ∃ i child rest, list[i]? = some child ∧ place = (first + i) :: rest ∧
        (rest, n) ∈ child.placed := by
  induction list generalizing first with
  | nil => simp [placedAll]
  | cons e others ih =>
    rw [placedAll, List.mem_append, ih]
    constructor
    · rintro (hfirst | ⟨i, child, rest, hchild, rfl, hmem⟩)
      · obtain ⟨⟨rest, m⟩, hmem, heq⟩ := List.mem_map.1 hfirst
        cases heq
        exact ⟨0, e, rest, rfl, rfl, hmem⟩
      · exact ⟨i + 1, child, rest, hchild, by rw [Nat.add_assoc, Nat.add_comm 1], hmem⟩
    · rintro ⟨i, child, rest, hchild, rfl, hmem⟩
      cases i with
      | zero =>
        cases hchild
        exact .inl (List.mem_map.2 ⟨(rest, n), hmem, rfl⟩)
      | succ i => exact .inr ⟨i, child, rest, hchild, by rw [Nat.add_assoc, Nat.add_comm 1], hmem⟩

/-- The places in post-order are those of the nodes. -/
theorem mem_placed {e n : Expr} {place : Place} :
    (place, n) ∈ e.placed ↔ e.at? place = some n := by
  induction place generalizing e with
  | nil =>
    rw [placed_eq, List.mem_append, mem_placedAll, List.mem_singleton, at?_nil]
    simp [eq_comm]
  | cons i rest ih =>
    rw [placed_eq, List.mem_append, mem_placedAll, List.mem_singleton, at?_cons_eq_some_iff]
    simp only [← ih, Nat.zero_add, List.cons.injEq, Prod.mk.injEq, reduceCtorEq, false_and,
      or_false]
    constructor
    · rintro ⟨_, child, _, hchild, ⟨rfl, rfl⟩, hmem⟩
      exact ⟨child, hchild, hmem⟩
    · rintro ⟨child, hchild, hmem⟩
      exact ⟨i, child, rest, hchild, ⟨rfl, rfl⟩, hmem⟩

theorem nodup_placedAll {first : Nat} {list : List Expr}
    (h : ∀ e ∈ list, (e.placed.map Prod.fst).Nodup) :
    ((placedAll first list).map Prod.fst).Nodup := by
  induction list generalizing first with
  | nil => exact .nil
  | cons e others ih =>
    obtain ⟨he, hothers⟩ := List.forall_mem_cons.1 h
    have hunder : ((e.placed.map (under first)).map Prod.fst) =
        (e.placed.map Prod.fst).map (first :: ·) := by
      rw [List.map_map, List.map_map]
      rfl
    rw [placedAll, List.map_append, hunder, List.nodup_append]
    refine ⟨List.Pairwise.map _ (fun _ _ hne heq => hne (List.cons.inj heq).2) he, ih hothers, ?_⟩
    -- the number of the first child is smaller than all that follow
    intro a ha b hb hab
    obtain ⟨rest, -, rfl⟩ := List.mem_map.1 ha
    obtain ⟨⟨place, n⟩, hmem, rfl⟩ := List.mem_map.1 hb
    obtain ⟨i, child, rest', hchild, hplace, -⟩ := mem_placedAll.1 hmem
    have hnumber : first = first + 1 + i := (List.cons.inj (hab.trans hplace)).1
    omega

/-- Each place comes up once. -/
theorem nodup_placed (e : Expr) : (e.placed.map Prod.fst).Nodup := by
  induction e using inductionOnChildren with
  | step e ih =>
    rw [placed_eq, List.map_append, List.nodup_append]
    refine ⟨nodup_placedAll ih, List.pairwise_singleton _ _, ?_⟩
    intro a ha b hb hab
    obtain ⟨⟨place, n⟩, hmem, rfl⟩ := List.mem_map.1 ha
    obtain ⟨i, child, rest, hchild, hplace, -⟩ := mem_placedAll.1 hmem
    have hroot : b = [] := List.mem_singleton.1 hb
    rw [hroot, hplace] at hab
    cases hab

end Expr

end Assertions
