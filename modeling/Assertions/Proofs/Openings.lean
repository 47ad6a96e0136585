import Assertions.Proofs.Parts

/-!
# Where groups and calls open

`Expr.openings` lists the groups and calls of a tree in the order of the text, each with what opens
it and with the number of groups and calls around it. `Expr.tooDeep?` is the first one in this list
that has a given number of others around it. There is none exactly if no more than that number are
inside each other (`tooDeep?_eq_none_iff`), so this is where a limit on the nesting is broken.
-/

namespace Assertions

namespace Expr

mutual

/-- The groups and calls of an expression that has `depth` of them around it, each with the number
of those around it. A group is opened by its bracket, a call by its name with all its arguments. -/
def openings (depth : Nat) : Expr → List (Nat × Span)
  | .ref .. | .string .. | .number .. | .statement .. => []
  | .call span _ args => (depth, span) :: openingsAll (depth + 1) args
  | .binary _ left right => openings depth left ++ openings depth right
  | .group span inner => (depth, ⟨span.start, span.start + 1⟩) :: openings (depth + 1) inner

/-- The groups and calls of several expressions. -/
def openingsAll (depth : Nat) : List Expr → List (Nat × Span)
  | [] => []
  | e :: rest => openings depth e ++ openingsAll depth rest

end

theorem mem_openingsAll {depth : Nat} {opening : Nat × Span} {list : List Expr} :
    opening ∈ openingsAll depth list ↔ ∃ e ∈ list, opening ∈ e.openings depth := by
  induction list with
  | nil => simp [openingsAll]
  | cons e rest ih => simp [openingsAll, ih]

/-- One level further in. -/
def deeper (opening : Nat × Span) : Nat × Span := (opening.1 + 1, opening.2)

theorem openingsAll_succ {depth : Nat} {list : List Expr}
    (h : ∀ e ∈ list, e.openings (depth + 1) = (e.openings depth).map deeper) :
    openingsAll (depth + 1) list = (openingsAll depth list).map deeper := by
  induction list with
  | nil => rfl
  | cons e rest ih =>
    obtain ⟨he, hrest⟩ := List.forall_mem_cons.1 h
    rw [openingsAll, openingsAll, he, ih hrest, List.map_append]

/-- What is around an expression is around all of its groups and calls. -/
theorem openings_succ (e : Expr) (depth : Nat) :
    e.openings (depth + 1) = (e.openings depth).map deeper := by
  induction e generalizing depth with
  | ref | string | number | statement => rfl
  | call span name args ih =>
    rw [openings, openings, openingsAll_succ fun arg harg => ih arg harg (depth + 1)]
    rfl
  | binary op left right ihl ihr => rw [openings, openings, ihl, ihr, List.map_append]
  | group span inner ih =>
    rw [openings, openings, ih]
    rfl

/-! ### The first one that is too deep -/

/-- What opens the first group or call that has `room` others around it. -/
def tooDeep? (room : Nat) (e : Expr) : Option Span :=
  ((e.openings 0).find? fun opening => opening.1 == room).map Prod.snd

theorem find?_deeper (room : Nat) (list : List (Nat × Span)) :
    ((list.map deeper).find? fun opening => opening.1 == room + 1).map Prod.snd =
      (list.find? fun opening => opening.1 == room).map Prod.snd := by
  have hkey : (fun opening : Nat × Span => opening.1 == room + 1) ∘ deeper =
      fun opening => opening.1 == room := by
    funext opening
    simp [deeper]
  have hspan : Prod.snd ∘ deeper = Prod.snd := rfl
  rw [List.find?_map, Option.map_map, hkey, hspan]

theorem tooDeep?_openingsAll (room : Nat) (list : List Expr) :
    ((openingsAll 0 list).find? fun opening => opening.1 == room).map Prod.snd =
      list.findSome? (tooDeep? room) := by
  induction list with
  | nil => rfl
  | cons e rest ih =>
    rw [openingsAll, List.find?_append, List.findSome?_cons, ← ih, tooDeep?]
    cases (e.openings 0).find? fun opening => opening.1 == room <;> rfl

theorem tooDeep?_call_zero (span : Span) (name : Text) (args : List Expr) :
    (call span name args).tooDeep? 0 = some span := rfl

theorem tooDeep?_group_zero (span : Span) (inner : Expr) :
    (group span inner).tooDeep? 0 = some ⟨span.start, span.start + 1⟩ := rfl

theorem tooDeep?_call_succ (room : Nat) (span : Span) (name : Text) (args : List Expr) :
    (call span name args).tooDeep? (room + 1) = args.findSome? (tooDeep? room) := by
  have hargs : openingsAll 1 args = (openingsAll 0 args).map deeper :=
    openingsAll_succ fun e _ => e.openings_succ 0
  rw [← tooDeep?_openingsAll, ← find?_deeper, ← hargs]
  rfl

theorem tooDeep?_group_succ (room : Nat) (span : Span) (inner : Expr) :
    (group span inner).tooDeep? (room + 1) = inner.tooDeep? room := by
  have hinner : inner.openings 1 = (inner.openings 0).map deeper := inner.openings_succ 0
  rw [tooDeep?, tooDeep?, ← find?_deeper room, ← hinner]
  rfl

theorem tooDeep?_binary (room : Nat) (op : Operator) (left right : Expr) :
    (binary op left right).tooDeep? room = (left.tooDeep? room).or (right.tooDeep? room) := by
  rw [tooDeep?, openings, List.find?_append, tooDeep?, tooDeep?]
  cases (left.openings 0).find? fun opening => opening.1 == room <;> rfl

/-- **Too deep.** A group or call with `room` others around it is there exactly if more than `room`
are inside each other. -/
theorem tooDeep?_eq_none_iff {room : Nat} {e : Expr} :
    e.tooDeep? room = none ↔ e.nesting ≤ room := by
  induction e generalizing room with
  | ref | string | number | statement => simp [tooDeep?, openings, nesting]
  | call span name args ih =>
    cases room with
    | zero => simp [tooDeep?_call_zero, nesting]
    | succ room =>
      rw [tooDeep?_call_succ, List.findSome?_eq_none_iff, nesting, Nat.add_le_add_iff_right,
        nestingAll_le]
      exact forall_congr' fun arg => forall_congr' fun harg => ih arg harg
  | binary op left right ihl ihr =>
    rw [tooDeep?_binary, Option.or_eq_none_iff, ihl, ihr, nesting, Nat.max_le]
  | group span inner ih =>
    cases room with
    | zero => simp [tooDeep?_group_zero, nesting]
    | succ room => rw [tooDeep?_group_succ, ih, nesting, Nat.add_le_add_iff_right]

end Expr

/-! ### The order of the text -/

namespace Phrase

/-- Groups and calls open inside the text of the phrase that they are in. -/
theorem openings_inside (p : Phrase) (offset depth : Nat) :
    ∀ opening ∈ (p.expr offset).openings depth,
      offset ≤ opening.2.start ∧ opening.2.start < offset + Text.size p.text := by
  induction p generalizing offset depth with
  | ref | string | number | statement => exact List.forall_mem_nil _
  | call name args ih =>
    have hargs := (standsAt_args name args).stop_le
    refine List.forall_mem_cons.2 ⟨?_, ?_⟩
    · simp only [spanAt]
      omega
    · intro opening hmem
      obtain ⟨e, he, hopening⟩ := Expr.mem_openingsAll.1 hmem
      obtain ⟨arg, harg, start, rfl, hstands⟩ := standsAt_of_mem_exprs he
      have hstop := (hstands.trans (standsAt_args name args)).stop_le
      have hinside := ih arg harg _ _ opening hopening
      omega
  | binary op left right ihl ihr =>
    have hleft := (standsAt_left op left right).stop_le
    have hright := (standsAt_right op left right).stop_le
    intro opening hmem
    rcases List.mem_append.1 hmem with hmem | hmem
    · have hinside := ihl offset depth opening hmem
      omega
    · have hinside := ihr _ depth opening hmem
      omega
  | group inner ih =>
    have hinner := (standsAt_inner inner).stop_le
    refine List.forall_mem_cons.2 ⟨?_, ?_⟩
    · simp only [spanAt]
      omega
    · intro opening hmem
      have hinside := ih (offset + 1) (depth + 1) opening hmem
      omega

theorem pairwise_openingsAll {args : List Phrase}
    (h : ∀ arg ∈ args, ∀ offset depth,
      ((arg.expr offset).openings depth).Pairwise fun a b => a.2.start < b.2.start)
    (offset depth : Nat) :
    (Expr.openingsAll depth (exprs offset args)).Pairwise fun a b => a.2.start < b.2.start := by
  induction args generalizing offset with
  | nil => exact .nil
  | cons first others ih =>
    obtain ⟨hfirst, hothers⟩ := List.forall_mem_cons.1 h
    refine List.pairwise_append.2 ⟨hfirst offset depth, ih hothers _, ?_⟩
    intro a ha b hb
    obtain ⟨e, he, hopening⟩ := Expr.mem_openingsAll.1 hb
    obtain ⟨arg, -, start, rfl, -⟩ := standsAt_of_mem_exprs he
    have hleft := openings_inside first offset depth a ha
    have hright := openings_inside arg _ depth b hopening
    omega

/-- **Source order.** Groups and calls are listed in the order in which they open. -/
theorem pairwise_openings (p : Phrase) (offset depth : Nat) :
    ((p.expr offset).openings depth).Pairwise fun a b => a.2.start < b.2.start := by
  induction p generalizing offset depth with
  | ref | string | number | statement => exact .nil
  | call name args ih =>
    refine .cons ?_ (pairwise_openingsAll ih _ _)
    intro opening hmem
    obtain ⟨e, he, hopening⟩ := Expr.mem_openingsAll.1 hmem
    obtain ⟨arg, -, start, rfl, -⟩ := standsAt_of_mem_exprs he
    have hinside := openings_inside arg _ _ opening hopening
    simp only [spanAt]
    omega
  | binary op left right ihl ihr =>
    refine List.pairwise_append.2 ⟨ihl _ _, ihr _ _, ?_⟩
    intro a ha b hb
    have hleft := openings_inside left _ _ a ha
    have hright := openings_inside right _ _ b hb
    omega
  | group inner ih =>
    refine .cons ?_ (ih _ _)
    intro opening hmem
    have hinside := openings_inside inner _ _ opening hmem
    simp only [spanAt]
    omega

end Phrase

end Assertions
