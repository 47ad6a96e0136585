import Assertions.Datum.Arithmetic
import Assertions.Proofs.Dictionaries
import Assertions.Proofs.ExactValues

/-!
# Coherence of equality and order

Equality and order of data are defined apart from each other, and both go by the kinds of what they
compare. This module shows that they fit together (`Datum.comparisons_coherent`).

Equality is equality of a normal form. The two zeros are the only numbers that differ and are equal,
so `unsigned` takes the sign from every zero, at any depth of a document, and documents are equal if
this leaves them the same (`Json.equals_iff`). With this, symmetry and transitivity need no more
inductions. Data have a normal form too, with two exceptions to account for: what is missing, and
the number that is not one (`Datum.equals_iff`).

Order goes by the points that numbers lie at (`Number.point?`) and by the order of texts.
-/

namespace Assertions

namespace Number

open Float.Model (UnpackedFloat)

/-- A number without the sign of a zero. -/
def unsigned (x : Float) : Float :=
  match unpack x with
  | .zero _ => ofInteger 0
  | _ => x

theorem point?_unsigned (x : Float) : point? (unsigned x) = point? x := by
  rw [unsigned]
  split
  · next sign hx =>
    show _ = pointOf? (unpack x)
    rw [hx]
    rfl
  · rfl

/-- Numbers at one point are the same up to the sign of a zero. -/
theorem unsigned_eq_iff {x y : Float} : unsigned x = unsigned y ↔ point? x = point? y := by
  constructor
  · intro h
    rw [← point?_unsigned x, h, point?_unsigned]
  · intro h
    cases hnan : x.isNaN with
    | true =>
      have hy : y.isNaN = true := point?_eq_none_iff.1 (h ▸ point?_eq_none_iff.2 hnan)
      have hsame : unpack x = unpack y :=
        (UnpackedFloat.isNaN_iff.1 hnan).trans (UnpackedFloat.isNaN_iff.1 hy).symm
      rw [unpack_injective hsame]
    | false =>
      have hbeq : (unpack x).beq (unpack y) = true :=
        beq_iff_eq.2 (compare?_eq_eq_iff.2 ⟨hnan, h⟩)
      obtain ⟨-, -, heq | ⟨hx, hy⟩ | ⟨hx, hy⟩⟩ :=
        (UnpackedFloat.beq_iff_ne_notANumber_and_eq _ _).1 hbeq
      · rw [unpack_injective heq]
      · simp only [unsigned, hx, hy]
      · simp only [unsigned, hx, hy]

end Number

/-- A double without the sign of a zero. -/
def FiniteFloat.unsigned (x : FiniteFloat) : FiniteFloat where
  value := Number.unsigned x.value
  isFinite := by
    obtain ⟨x, hx⟩ := x
    rw [Number.unsigned]
    split
    · rfl
    · exact hx

theorem FiniteFloat.isNaN_eq_false (x : FiniteFloat) : x.value.isNaN = false := by
  obtain ⟨q, hq⟩ := Number.isFinite_iff_point?.1 x.isFinite
  exact Number.isNaN_eq_false_iff.2 ⟨_, hq⟩

theorem FiniteFloat.unsigned_eq_iff {x y : FiniteFloat} :
    x.unsigned = y.unsigned ↔ Number.point? x.value = Number.point? y.value := by
  rw [← Number.unsigned_eq_iff]
  obtain ⟨x, hx⟩ := x
  obtain ⟨y, hy⟩ := y
  simp [unsigned]

namespace Json

mutual

/-- A document in which no zero has a sign. -/
def unsigned : Json → Json
  | .null => .null
  | .bool value => .bool value
  | .integer value => .integer value
  | .double value => .double value.unsigned
  | .string value => .string value
  | .array items => .array (unsignedItems items)
  | .object members => .object (unsignedMembers members)

/-- Items in which no zero has a sign. -/
def unsignedItems : List Json → List Json
  | [] => []
  | item :: rest => unsigned item :: unsignedItems rest

/-- Members in which no zero has a sign. -/
def unsignedMembers : List (Text × Json) → List (Text × Json)
  | [] => []
  | (key, value) :: rest => (key, unsigned value) :: unsignedMembers rest

end

theorem unsignedMembers_eq_map (members : List (Text × Json)) :
    unsignedMembers members = members.map fun e => (e.1, e.2.unsigned) := by
  induction members with
  | nil => rfl
  | cons member rest ih => rw [unsignedMembers, ih, List.map_cons]

theorem equals_double_iff {x y : FiniteFloat} :
    equals (.double x) (.double y) = true ↔ x.unsigned = y.unsigned := by
  have hnan : x.value.isNaN = false := x.isNaN_eq_false
  rw [equals, beq_iff_eq, Number.compare?_eq_eq_iff, FiniteFloat.unsigned_eq_iff]
  exact ⟨And.right, fun h => ⟨hnan, h⟩⟩

mutual

/-- Documents are equal if they are the same up to the signs of zeros. -/
theorem equals_iff : ∀ {a b : Json}, equals a b = true ↔ unsigned a = unsigned b
  | .null, b => by cases b <;> simp [equals, unsigned]
  | .bool _, b => by cases b <;> simp [equals, unsigned]
  | .integer _, b => by cases b <;> simp [equals, unsigned]
  | .string _, b => by cases b <;> simp [equals, unsigned]
  | .double x, b => by
    cases b with
    | double y => rw [equals_double_iff]; simp [unsigned]
    | _ => simp [equals, unsigned]
  | .array items, b => by
    cases b with
    | array others => rw [equals, unsigned, unsigned, equalItems_iff]; simp
    | _ => simp [equals, unsigned]
  | .object members, b => by
    cases b with
    | object others => rw [equals, unsigned, unsigned, equalMembers_iff]; simp
    | _ => simp [equals, unsigned]

theorem equalItems_iff : ∀ {a b : List Json},
    equalItems a b = true ↔ unsignedItems a = unsignedItems b
  | [], b => by cases b <;> simp [equalItems, unsignedItems]
  | item :: rest, b => by
    cases b with
    | nil => simp [equalItems, unsignedItems]
    | cons other others => simp [equalItems, unsignedItems, equals_iff, equalItems_iff]

theorem equalMembers_iff : ∀ {a b : List (Text × Json)},
    equalMembers a b = true ↔ unsignedMembers a = unsignedMembers b
  | [], b => by cases b <;> simp [equalMembers, unsignedMembers]
  | (key, value) :: rest, b => by
    cases b with
    | nil => simp [equalMembers, unsignedMembers]
    | cons other others => simp [equalMembers, unsignedMembers, equals_iff, equalMembers_iff]

end

theorem equivalence_equals : Equivalence fun x y : Json => equals x y = true where
  refl _ := equals_iff.2 rfl
  symm h := equals_iff.2 (equals_iff.1 h).symm
  trans h h' := equals_iff.2 ((equals_iff.1 h).trans (equals_iff.1 h'))

end Json

namespace Datum

/-! ### Equality of data -/

/-- Whether a datum is the number that is not one. -/
def isNaN : Datum → Bool
  | .number value => value.isNaN
  | _ => false

/-- A datum in which no zero has a sign. -/
def unsigned : Datum → Datum
  | .missing => .missing
  | .null => .null
  | .bool value => .bool value
  | .number value => .number (Number.unsigned value)
  | .string value => .string value
  | .array items => .array (Json.unsignedItems items)
  | .object members => .object (Json.unsignedMembers members)

theorem isMissing_unsigned (a : Datum) : a.unsigned.isMissing = a.isMissing := by
  cases a <;> rfl

theorem isNaN_unsigned (a : Datum) : a.unsigned.isNaN = a.isNaN := by
  cases a with
  | number x =>
    show (Number.unsigned x).isNaN = x.isNaN
    rw [Bool.eq_iff_iff, ← Number.point?_eq_none_iff, ← Number.point?_eq_none_iff,
      Number.point?_unsigned]
  | _ => rfl

/-- Data are the same if they are so up to the signs of zeros, unless they are not numbers. -/
theorem same_iff {a b : Datum} : same a b = true ↔ a.isNaN = false ∧ a.unsigned = b.unsigned := by
  cases a with
  | number x =>
    cases b with
    | number y =>
      rw [same, beq_iff_eq, Number.compare?_eq_eq_iff, ← Number.unsigned_eq_iff, unsigned, unsigned,
        number.injEq]
      rfl
    | _ => simp [same, unsigned]
  | array items =>
    cases b with
    | array others => simp [same, unsigned, isNaN, Json.equalItems_iff]
    | _ => simp [same, unsigned]
  | object members =>
    cases b with
    | object others => simp [same, unsigned, isNaN, Json.equalMembers_iff]
    | _ => simp [same, unsigned]
  | missing | null | bool | string => cases b <;> simp [same, unsigned, isNaN]

theorem equals_iff {a b : Datum} :
    equals a b = true ↔ a.isMissing = false ∧ a.isNaN = false ∧ a.unsigned = b.unsigned := by
  rw [equals, Bool.and_eq_true, Bool.and_eq_true, Bool.not_eq_true', Bool.not_eq_true', same_iff]
  constructor
  · rintro ⟨⟨ha, -⟩, hnan, h⟩
    exact ⟨ha, hnan, h⟩
  · rintro ⟨ha, hnan, h⟩
    have hb : b.isMissing = false := by rw [← isMissing_unsigned, ← h, isMissing_unsigned, ha]
    exact ⟨⟨ha, hb⟩, hnan, h⟩

theorem equals_symm {a b : Datum} (h : equals a b = true) : equals b a = true := by
  obtain ⟨ha, hnan, hsame⟩ := equals_iff.1 h
  rw [← isMissing_unsigned, hsame, isMissing_unsigned] at ha
  rw [← isNaN_unsigned, hsame, isNaN_unsigned] at hnan
  exact equals_iff.2 ⟨ha, hnan, hsame.symm⟩

theorem equals_trans {a b c : Datum} (hab : equals a b = true) (hbc : equals b c = true) :
    equals a c = true := by
  obtain ⟨ha, hnan, hsame⟩ := equals_iff.1 hab
  obtain ⟨-, -, hsame'⟩ := equals_iff.1 hbc
  exact equals_iff.2 ⟨ha, hnan, hsame.trans hsame'⟩

theorem equals_self_iff {a : Datum} :
    equals a a = true ↔ a.isMissing = false ∧ a.isNaN = false := by
  rw [equals_iff]
  exact ⟨fun h => ⟨h.1, h.2.1⟩, fun h => ⟨h.1, h.2, rfl⟩⟩

/-! ### Order of data -/

/-- Two numbers, or two strings. -/
inductive OnOneScale : Datum → Datum → Prop
  | numbers (x y : Float) : OnOneScale (.number x) (.number y)
  | strings (s t : Text) : OnOneScale (.string s) (.string t)

/-- Two numbers have an order unless one of them is not a number, and two strings always have. -/
theorem isSome_compare?_iff {a b : Datum} :
    (compare? a b).isSome = true ↔ OnOneScale a b ∧ a.isNaN = false ∧ b.isNaN = false := by
  constructor
  · intro h
    cases a with
    | number x =>
      cases b with
      | number y => exact ⟨.numbers x y, Number.isSome_compare?_iff.1 h⟩
      | _ => cases h
    | string s =>
      cases b with
      | string t => exact ⟨.strings s t, rfl, rfl⟩
      | _ => cases h
    | missing | null | bool | array | object => cases b <;> cases h
  · rintro ⟨hscale, hnan⟩
    cases hscale with
    | numbers x y => exact Number.isSome_compare?_iff.2 hnan
    | strings s t => rfl

theorem compare?_swap (a b : Datum) : compare? b a = (compare? a b).map Ordering.swap := by
  cases a with
  | number x =>
    cases b with
    | number y => exact Number.compare?_swap x y
    | _ => rfl
  | string s =>
    cases b with
    | string t => exact congrArg some Std.OrientedOrd.eq_swap
    | _ => rfl
  | missing | null | bool | array | object => cases b <;> rfl

theorem compare?_lt_trans {a b c : Datum} (hab : compare? a b = some .lt)
    (hbc : compare? b c = some .lt) : compare? a c = some .lt := by
  obtain ⟨hscale, -, -⟩ := isSome_compare?_iff.1 (Option.isSome_of_eq_some hab)
  obtain ⟨hscale', -, -⟩ := isSome_compare?_iff.1 (Option.isSome_of_eq_some hbc)
  cases hscale with
  | numbers x y =>
    cases hscale' with
    | numbers _ z => exact Number.compare?_lt_trans hab hbc
  | strings s t =>
    cases hscale' with
    | strings _ u =>
      exact congrArg some (Std.TransCmp.lt_trans (Option.some.inj hab) (Option.some.inj hbc))

theorem OnOneScale.equals_iff {a b : Datum} (h : OnOneScale a b) :
    equals a b = true ↔ compare? a b = some .eq := by
  cases h with
  | numbers x y => exact beq_iff_eq
  | strings s t =>
    show (s == t) = true ↔ some (compare s t) = some .eq
    rw [beq_iff_eq, Option.some_inj, Std.compare_eq_iff_eq]

end Datum

/-- The comparison that holds between data in an order. -/
def Operator.ofOrdering : Ordering → Operator
  | .lt => .lt
  | .eq => .eq
  | .gt => .gt

namespace Datum

theorem OnOneScale.apply_ofOrdering {a b : Datum} (h : OnOneScale a b) (o : Ordering) :
    apply (.ofOrdering o) a b = .bool (compare? a b == some o) := by
  have heq : equals a b = (compare? a b == some .eq) := by
    rw [Bool.eq_iff_iff, h.equals_iff, beq_iff_eq]
  cases o with
  | eq => exact congrArg Datum.bool heq
  | lt | gt =>
    show Datum.bool ((compare? a b).any _) = _
    cases compare? a b with
    | none => rfl
    | some o' => rfl

/-- Of two data on one scale, exactly one is less, or they are equal. -/
theorem OnOneScale.existsUnique {a b : Datum} (h : OnOneScale a b) (ha : a.isNaN = false)
    (hb : b.isNaN = false) : ∃! o, apply (.ofOrdering o) a b = .bool true := by
  obtain ⟨o, ho⟩ := Option.isSome_iff_exists.1 (isSome_compare?_iff.2 ⟨h, ha, hb⟩)
  refine ⟨o, by simp only [h.apply_ofOrdering, ho, beq_self_eq_true], fun o' ho' => ?_⟩
  simp only [h.apply_ofOrdering, ho, Datum.bool.injEq, beq_iff_eq, Option.some_inj] at ho'
  exact ho'.symm

/-- Nothing holds of what is not a number. -/
theorem OnOneScale.apply_eq_false {a b : Datum} (h : OnOneScale a b)
    (hnan : a.isNaN = true ∨ b.isNaN = true) (o : Ordering) :
    apply (.ofOrdering o) a b = .bool false := by
  have hnone : compare? a b = none := by
    rw [← Option.not_isSome_iff_eq_none, isSome_compare?_iff]
    rintro ⟨-, ha, hb⟩
    rcases hnan with hnan | hnan
    · exact Bool.false_ne_true (ha.symm.trans hnan)
    · exact Bool.false_ne_true (hb.symm.trans hnan)
  rw [h.apply_ofOrdering, hnone]
  rfl

/-! ### Objects -/

theorem unsignedMembers_eq_iff {d e : Dictionary Json} :
    Json.unsignedMembers d.entries = Json.unsignedMembers e.entries ↔
      ∀ key, (d.find? key).map Json.unsigned = (e.find? key).map Json.unsigned := by
  rw [Json.unsignedMembers_eq_map, Json.unsignedMembers_eq_map]
  constructor
  · intro h key
    rw [Dictionary.find?, Dictionary.find?, ← Dictionary.findValue?_map, h,
      Dictionary.findValue?_map]
  · intro h
    refine Dictionary.eq_of_findValue? (List.pairwise_map.2 d.sorted)
      (List.pairwise_map.2 e.sorted) fun key => ?_
    rw [Dictionary.findValue?_map, Dictionary.findValue?_map]
    exact h key

/-- Two objects are equal if they have equal values under the same keys. -/
theorem equals_object_iff {d e : Dictionary Json} :
    equals (.object d.entries) (.object e.entries) = true ↔
      ∀ key, Option.Rel (fun x y => Json.equals x y = true) (d.find? key) (e.find? key) := by
  have hrel : ∀ x? y? : Option Json, x?.map Json.unsigned = y?.map Json.unsigned ↔
      Option.Rel (fun x y => Json.equals x y = true) x? y? := by
    intro x? y?
    cases x? with
    | none => cases y? <;> simp
    | some x => cases y? <;> simp [Json.equals_iff]
  show Json.equalMembers d.entries e.entries = true ↔ _
  rw [Json.equalMembers_iff, unsignedMembers_eq_iff]
  exact forall_congr' fun key => hrel _ _

/-! ### Coherence -/

/-- **Equality and order of data are coherent.** Equality is symmetric and transitive, and only what
is missing or not a number is not equal to itself. The order of two data is the reverse of the order
the other way round, it is transitive, and there is one exactly between two numbers and between two
strings. There equality and order agree: exactly one of `<`, `==` and `>` holds, or none if there is
something that is not a number. Equality of documents is an equivalence, and two objects are equal
if they have equal values under the same keys. -/
theorem comparisons_coherent :
    (∀ a b, equals b a = equals a b) ∧
    (∀ a b c, equals a b = true → equals b c = true → equals a c = true) ∧
    (∀ a, equals a a = true ↔ a.isMissing = false ∧ a.isNaN = false) ∧
    (∀ a b, compare? b a = (compare? a b).map Ordering.swap) ∧
    (∀ a b c, compare? a b = some .lt → compare? b c = some .lt → compare? a c = some .lt) ∧
    (∀ a b, (compare? a b).isSome = true ↔
      OnOneScale a b ∧ a.isNaN = false ∧ b.isNaN = false) ∧
    (∀ a b, OnOneScale a b →
      (equals a b = true ↔ compare? a b = some .eq) ∧
      (a.isNaN = false → b.isNaN = false → ∃! o, apply (.ofOrdering o) a b = .bool true) ∧
      (a.isNaN = true ∨ b.isNaN = true → ∀ o, apply (.ofOrdering o) a b = .bool false)) ∧
    (Equivalence fun x y : Json => Json.equals x y = true) ∧
    (∀ d e : Dictionary Json, equals (.object d.entries) (.object e.entries) = true ↔
      ∀ key, Option.Rel (fun x y => Json.equals x y = true) (d.find? key) (e.find? key)) := by
  refine ⟨fun a b => ?_, fun _ _ _ => equals_trans, fun _ => equals_self_iff, compare?_swap,
    fun _ _ _ => compare?_lt_trans, fun _ _ => isSome_compare?_iff, fun a b h => ?_,
    Json.equivalence_equals, fun _ _ => equals_object_iff⟩
  · rw [Bool.eq_iff_iff]
    exact ⟨equals_symm, equals_symm⟩
  · exact ⟨h.equals_iff, h.existsUnique, h.apply_eq_false⟩

/-- Both zeros, in arrays and alone, and strings of which one is the beginning of the other. -/
theorem comparisons_coherent_zeros :
    ∃ zero negativeZero : FiniteFloat, zero.value ≠ negativeZero.value ∧
      equals (.array [.double zero]) (.array [.double negativeZero]) = true ∧
      equals (.array [.double negativeZero]) (.array [.double zero]) = true ∧
      equals (.array [.double zero]) (.array [.double zero]) = true ∧
      (∃! o, apply (.ofOrdering o) (.number zero.value) (.number negativeZero.value) =
        .bool true) ∧
      compare? (.string []) (.string ['a']) = some .lt ∧
      compare? (.string ['a']) (.string ['a', 'b']) = some .lt ∧
      compare? (.string []) (.string ['a', 'b']) = some .lt := by
  refine ⟨⟨.ofBits 0, rfl⟩, ⟨.ofBits 0x8000000000000000, rfl⟩, by decide, rfl, rfl, ?_, ?_, rfl,
    rfl, ?_⟩
  · exact comparisons_coherent.2.1 _ (.array [.double ⟨.ofBits 0x8000000000000000, rfl⟩]) _ rfl rfl
  · exact (comparisons_coherent.2.2.2.2.2.2.1 _ _ (.numbers _ _)).2.1 rfl rfl
  · exact comparisons_coherent.2.2.2.2.1 _ (.string ['a']) _ rfl rfl

end Datum

end Assertions
