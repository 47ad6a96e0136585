import Assertions.Evaluation

/-!
# Missing operands

What is missing spreads: a calculation with a missing operand anywhere in it is missing, and no
comparison holds of what is missing but `!=`. The one place where it could get lost is `+`, which
joins a string to anything else; it looks for what is missing first.

`Expr.IsCalculation` takes an expression apart into the operands of its arithmetic, at any depth and
through brackets. What the operands are is left open, so that references, calls, strings and
comparisons all count.
-/

namespace Assertions

namespace Operator

/-- Whether an operator calculates. -/
def isArithmetic : Operator → Bool
  | add | sub | mul | div | mod => true
  | _ => false

/-- Whether an operator compares. -/
def isComparison : Operator → Bool
  | lt | le | gt | ge | eq | ne => true
  | _ => false

end Operator

/-! ### Operators on what is missing -/

namespace Datum

theorem onNumbers_of_missing (f : Float → Float → Float) {a b : Datum}
    (h : a = missing ∨ b = missing) : onNumbers f a b = missing := by
  rcases h with rfl | rfl
  · rfl
  · cases a <;> rfl

/-- What is missing cannot be joined to anything, strings included. -/
theorem add_of_missing {a b : Datum} (h : a = missing ∨ b = missing) : add a b = missing := by
  rcases h with rfl | rfl
  · rfl
  · cases a <;> rfl

/-- An arithmetic operator with a missing operand gives nothing. -/
theorem apply_of_missing {op : Operator} (hop : op.isArithmetic = true) {a b : Datum}
    (h : a = missing ∨ b = missing) : apply op a b = missing := by
  cases op with
  | add => exact add_of_missing h
  | sub | mul | div | mod => exact onNumbers_of_missing _ h
  | lt | le | gt | ge | eq | ne | and | or => cases hop

theorem equals_of_missing {a b : Datum} (h : a = missing ∨ b = missing) : equals a b = false := by
  rcases h with rfl | rfl
  · rfl
  · cases a <;> rfl

theorem compare?_of_missing {a b : Datum} (h : a = missing ∨ b = missing) :
    compare? a b = none := by
  rcases h with rfl | rfl
  · rfl
  · cases a <;> rfl

/-- Of the comparisons with what is missing only `!=` holds. -/
theorem apply_comparison_of_missing {op : Operator} (hop : op.isComparison = true) {a b : Datum}
    (h : a = missing ∨ b = missing) : apply op a b = bool (op == .ne) := by
  cases op with
  | eq | ne => rw [apply, equals_of_missing h]; rfl
  | lt | le | gt | ge => rw [apply, ordered, compare?_of_missing h]; rfl
  | add | sub | mul | div | mod | and | or => cases hop

end Datum

/-! ### Calculations -/

namespace Expr

/-- An expression that arithmetic and brackets make of some operands. -/
inductive IsCalculation : List Expr → Expr → Prop
  | operand (e : Expr) : IsCalculation [e] e
  | operation {op : Operator} (hop : op.isArithmetic = true) {lefts rights : List Expr}
      {left right : Expr} (hleft : IsCalculation lefts left) (hright : IsCalculation rights right) :
      IsCalculation (lefts ++ rights) (.binary op left right)
  | brackets (span : Span) {operands : List Expr} {inner : Expr}
      (hinner : IsCalculation operands inner) : IsCalculation operands (.group span inner)

variable {functions : Repertoire} {world : World}

/-- An operator that is not logical is applied to the data of both its operands. -/
theorem value_evaluate_binary {op : Operator}
    (hop : op.isArithmetic = true ∨ op.isComparison = true) (left right : Expr) :
    ((Expr.binary op left right).evaluate functions world).value =
      .apply op (left.evaluate functions world).value (right.evaluate functions world).value := by
  have hdecided : op.isDecidedBy (left.evaluate functions world).value = false := by
    cases op with
    | and | or => rcases hop with hop | hop <;> cases hop
    | _ => rfl
  rw [evaluate, Traced.value_andThen, hdecided]
  rfl

/-- A calculation with a missing operand is missing. -/
theorem IsCalculation.value_eq_missing {operands : List Expr} {e : Expr}
    (h : IsCalculation operands e) {operand : Expr} (hmem : operand ∈ operands)
    (hmissing : (operand.evaluate functions world).value = .missing) :
    (e.evaluate functions world).value = .missing := by
  induction h with
  | operand e =>
    rw [← List.mem_singleton.1 hmem]
    exact hmissing
  | operation hop _ _ ihleft ihright =>
    rw [value_evaluate_binary (.inl hop)]
    rcases List.mem_append.1 hmem with hmem | hmem
    · exact Datum.apply_of_missing hop (.inl (ihleft hmem))
    · exact Datum.apply_of_missing hop (.inr (ihright hmem))
  | brackets span _ ih => exact ih hmem

/-- A comparison of which one side is missing holds only if it is `!=`. -/
theorem value_comparison_of_missing {op : Operator} (hop : op.isComparison = true)
    {left right : Expr} (h : (left.evaluate functions world).value = .missing ∨
      (right.evaluate functions world).value = .missing) :
    ((Expr.binary op left right).evaluate functions world).value = .bool (op == .ne) := by
  rw [value_evaluate_binary (.inr hop)]
  exact Datum.apply_comparison_of_missing hop h

/-- **What is missing spreads.** In any world and with any functions, a calculation one of whose
operands is missing is missing, whatever its other operands are. A comparison of which either side
is missing is false, and `!=` is true. So of the comparisons between what is calculated from a
missing operand and anything else, on whichever side and itself included, none but `!=` holds. -/
theorem missing_spreads (functions : Repertoire) (world : World) :
    (∀ operands e, IsCalculation operands e →
      (∃ operand ∈ operands, (operand.evaluate functions world).value = .missing) →
      (e.evaluate functions world).value = .missing) ∧
    (∀ op left right, op.isComparison = true →
      (left.evaluate functions world).value = .missing ∨
        (right.evaluate functions world).value = .missing →
      ((Expr.binary op left right).evaluate functions world).value = .bool (op == .ne)) ∧
    (∀ operands e, IsCalculation operands e →
      (∃ operand ∈ operands, (operand.evaluate functions world).value = .missing) →
      ∀ op other, op.isComparison = true →
        (((Expr.binary op e other).evaluate functions world).value = .bool true → op = .ne) ∧
        (((Expr.binary op other e).evaluate functions world).value = .bool true → op = .ne)) := by
  have hcalculation : ∀ operands e, IsCalculation operands e →
      (∃ operand ∈ operands, (operand.evaluate functions world).value = .missing) →
      (e.evaluate functions world).value = .missing := by
    rintro operands e h ⟨operand, hmem, hmissing⟩
    exact h.value_eq_missing hmem hmissing
  refine ⟨hcalculation, fun op left right hop h => value_comparison_of_missing hop h,
    fun operands e h hmissing op other hop => ?_⟩
  have he := hcalculation operands e h hmissing
  rw [value_comparison_of_missing hop (.inl he), value_comparison_of_missing hop (.inr he),
    Datum.bool.injEq, beq_iff_eq]
  exact ⟨id, id⟩

/-- The calculation `'a' + (2 * $x)` where nothing is known of `$x`. -/
theorem missing_spreads_product :
    ∃ text two x sum : Expr, text = .string ⟨0, 3⟩ ['a'] ∧ two = .number ⟨7, 8⟩ 2 ∧
      x = .ref ⟨11, 13⟩ .model ⟨[['x']]⟩ ∧
      sum = .binary .add text (.group ⟨6, 14⟩ (.binary .mul two x)) ∧
      IsCalculation [text, two, x] sum ∧ (x.evaluate .empty .empty).value = .missing ∧
      (sum.evaluate .empty .empty).value = .missing ∧
      ((Expr.binary .eq sum sum).evaluate .empty .empty).value = .bool false ∧
      ((Expr.binary .ne text sum).evaluate .empty .empty).value = .bool true ∧
      ((Expr.binary .le text sum).evaluate .empty .empty).value ≠ .bool true := by
  refine ⟨_, _, _, _, rfl, rfl, rfl, rfl, ?_⟩
  have hcalculation (text two x : Expr) : IsCalculation [text, two, x]
      (.binary .add text (.group ⟨6, 14⟩ (.binary .mul two x))) :=
    .operation rfl (.operand _) (.brackets _ (.operation rfl (.operand _) (.operand _)))
  have hmissing : ∃ operand ∈ [Expr.string ⟨0, 3⟩ ['a'], .number ⟨7, 8⟩ 2, .ref ⟨11, 13⟩ .model
      ⟨[['x']]⟩], (operand.evaluate .empty .empty).value = .missing :=
    ⟨_, List.mem_of_getLast? rfl, rfl⟩
  obtain ⟨hspreads, hcomparison, hfalse⟩ := missing_spreads .empty .empty
  have hsum := hspreads _ _ (hcalculation ..) hmissing
  exact ⟨hcalculation .., rfl, hsum, hcomparison .eq _ _ rfl (.inl hsum),
    hcomparison .ne _ _ rfl (.inr hsum),
    fun h => nomatch (hfalse _ _ (hcalculation ..) hmissing .le _ rfl).2 h⟩

end Expr

end Assertions
