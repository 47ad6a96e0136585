import Assertions.Proofs.Coherence
import Assertions.Proofs.PathComposition

/-!
# The root object of bindings

Bindings hand out an object of all that is bound when their root is looked up. In this object every
path leads to the same as in the bindings themselves, as long as no number that is bound is infinite
or `NaN`.

The object holds documents, so a number goes to its document and back. `Number.point?` says that it
stays where it is on the way (`Datum.same_ofJson_toJson`): a double below `2 ^ 63` in magnitude that
is an integer becomes that integer, and any other finite one stays a double.

Bindings come up by changes, one after the other. What is under a name is what the last change of
that name left there (`Bindings.find?_after`).
-/

namespace Assertions

/-! ### Changes of bindings -/

namespace Bindings

/-- A change of bindings. -/
inductive Change where
  /-- A datum is put under a name, in the place of the one that was there. -/
  | insert (name : Text) (datum : Datum)
  /-- What is under a name is taken away. -/
  | remove (name : Text)

namespace Change

/-- The name that a change is about. -/
def name : Change → Text
  | .insert name _ | .remove name => name

/-- What a change leaves under its name. -/
def datum? : Change → Option Datum
  | .insert _ datum => some datum
  | .remove _ => none

end Change

/-- The bindings after one more change. -/
def change (bindings : Bindings) : Change → Bindings
  | .insert name datum => Dictionary.insert bindings name datum
  | .remove name => Dictionary.erase bindings name

/-- The bindings after some changes, where there were none at first. -/
def after (changes : List Change) : Bindings := changes.foldl change .empty

/-- What the last change of a name has left under it. -/
def bound? (changes : List Change) (name : Text) : Option Datum :=
  (changes.reverse.find? (·.name = name)).bind Change.datum?

/-- A change is one of what is under its name only. -/
theorem find?_change (bindings : Bindings) (c : Change) (name : Text) :
    (bindings.change c).find? name = if c.name = name then c.datum? else bindings.find? name := by
  cases c with
  | insert other datum => exact Dictionary.find?_insert bindings other name datum
  | remove other => exact Dictionary.find?_erase bindings other name

/-- What is under a name is what the last change of that name has left there. -/
theorem find?_after (changes : List Change) (name : Text) :
    (after changes).find? name = bound? changes name := by
  induction changes using List.reverseRecOn with
  | nil => rfl
  | append_singleton earlier last ih =>
    have hafter : after (earlier ++ [last]) = (after earlier).change last :=
      List.foldl_concat ..
    rw [hafter, find?_change, ih, bound?, bound?, List.reverse_append, List.reverse_singleton,
      List.singleton_append, List.find?_cons]
    by_cases hname : last.name = name
    · simp [hname]
    · simp [hname]

end Bindings

/-! ### Data and their documents -/

namespace Datum

theorem isMissing_iff {datum : Datum} : datum.isMissing = true ↔ datum = missing := by
  cases datum with
  | missing => exact ⟨fun _ => rfl, fun _ => rfl⟩
  | _ => exact ⟨nofun, nofun⟩

theorem isNaN_ofJson (json : Json) : (ofJson json).isNaN = false := by
  cases json with
  | integer i => exact Number.isNaN_ofInteger i
  | double x => exact x.isNaN_eq_false
  | null | bool | string | array | object => rfl

/-- What is found in a document is the same as itself. -/
theorem same_lookup_self (json : Json) (segments : List Text) :
    same (json.lookup segments) (json.lookup segments) = true := by
  refine same_iff.2 ⟨?_, rfl⟩
  rw [Json.lookup]
  cases json.walk? segments with
  | none => rfl
  | some part => exact isNaN_ofJson part

/-- A double that is a small integer becomes that integer. -/
theorem toJson_number_of_lt {x : Float} {i : Int} (h : Number.point? x = some (.ofRat i))
    (hi : i.natAbs < 2 ^ 63) : (number x).toJson = .integer i := by
  have hwritable : isWritableInteger i = true := decide_eq_true hi
  simp only [toJson, numberToJson, Number.toInteger?_eq_some_iff.2 h, hwritable, ↓reduceIte]

/-- A double that is no small integer stays a double. -/
theorem toJson_number_of_le {x : Float} (hx : x.isFinite = true)
    (h : ∀ i : Int, Number.point? x = some (.ofRat i) → 2 ^ 63 ≤ i.natAbs) :
    (number x).toJson = .double ⟨x, hx⟩ := by
  have hdouble : numberToJson.ofDouble x = .double ⟨x, hx⟩ := dif_pos hx
  rw [toJson, numberToJson, hdouble]
  split
  · next i hi =>
    have hwritable : isWritableInteger i = false :=
      decide_eq_false (Nat.not_lt.2 (h i (Number.toInteger?_eq_some_iff.1 hi)))
    rw [hwritable]
    rfl
  · rfl

/-- Whether a datum is not an infinite number and not `NaN`. -/
def IsFinite (datum : Datum) : Prop := ∀ x, datum = number x → x.isFinite = true

/-- A finite number is the same after the way to its document and back. -/
theorem same_ofJson_toJson_number {x : Float} (hx : x.isFinite = true) :
    same (ofJson (number x).toJson) (number x) = true := by
  obtain ⟨q, hq⟩ := Number.isFinite_iff_point?.1 hx
  have hself : Number.compare? x x = some .eq :=
    Number.compare?_eq_eq_iff.2 ⟨Number.isNaN_eq_false_iff.2 ⟨_, hq⟩, rfl⟩
  by_cases hsmall : ∃ i : Int, Number.point? x = some (.ofRat i) ∧ i.natAbs < 2 ^ 63
  · obtain ⟨i, hi, hlt⟩ := hsmall
    have hpoint := Number.point?_ofInteger hi
    rw [toJson_number_of_lt hi hlt]
    refine beq_iff_eq.2 (Number.compare?_eq_eq_iff.2 ⟨Number.isNaN_ofInteger i, ?_⟩)
    rw [hpoint, hi]
  · push Not at hsmall
    rw [toJson_number_of_le hx hsmall]
    exact beq_iff_eq.2 hself

theorem same_ofJson_toJson {datum : Datum} (hmissing : datum.isMissing = false)
    (hfinite : datum.IsFinite) : same (ofJson datum.toJson) datum = true := by
  cases datum with
  | missing => cases hmissing
  | number x => exact same_ofJson_toJson_number (hfinite x rfl)
  | null | bool | string | array | object => exact same_iff.2 ⟨rfl, rfl⟩

end Datum

/-! ### The root -/

namespace Bindings

/-- What the object of the root holds under a name. -/
theorem findValue?_toMembers (bindings : Bindings) (name : Text) :
    Dictionary.findValue? name bindings.toMembers =
      ((bindings.find? name).filter (!·.isMissing)).map Datum.toJson := by
  show Dictionary.findValue? name ((bindings.entries.filter fun e => !e.2.isMissing).map
    fun e => (e.1, e.2.toJson)) = _
  rw [Dictionary.findValue?_map,
    Dictionary.findValue?_filter_value bindings.sorted fun datum => !datum.isMissing]
  rfl

/-- What is found behind a datum and behind its document is the same. -/
theorem same_lookup_toJson {datum : Datum} (hmissing : datum.isMissing = false)
    (hfinite : datum.IsFinite) (segments : List Text) :
    Datum.same (datum.toJson.lookup segments) (datum.lookup segments) = true := by
  cases segments with
  | nil =>
    rw [Datum.lookup_nil]
    exact Datum.same_ofJson_toJson hmissing hfinite
  | cons segment others =>
    rw [Datum.lookup_eq_lookup_toJson datum (List.cons_ne_nil _ _)]
    exact Datum.same_lookup_self _ _

/-- A path leads to the same in the object of the root as in the bindings. -/
theorem same_lookup_toMembers {bindings : Bindings}
    (hfinite : ∀ name datum, bindings.find? name = some datum → datum.IsFinite)
    {segments : List Text} (h : segments ≠ []) :
    Datum.same ((Json.object bindings.toMembers).lookup segments) (bindings.lookup segments) =
      true := by
  obtain ⟨name, others, rfl⟩ := List.exists_cons_of_ne_nil h
  have hroot : (Json.object bindings.toMembers).walk? (name :: others) =
      (Dictionary.findValue? name bindings.toMembers).bind (Json.walk? · others) := rfl
  rw [lookup_cons, Json.lookup, hroot, findValue?_toMembers]
  cases hfound : bindings.find? name with
  | none =>
    show Datum.same .missing (Datum.missing.lookup others) = true
    rw [Datum.lookup_missing]
    rfl
  | some datum =>
    cases hmissing : datum.isMissing with
    | true =>
      -- what is bound and missing is not in the object
      rw [Option.filter_some_neg (by rw [hmissing]; decide), Datum.isMissing_iff.1 hmissing]
      show Datum.same .missing (Datum.missing.lookup others) = true
      rw [Datum.lookup_missing]
      rfl
    | false =>
      rw [Option.filter_some_pos (by rw [hmissing]; rfl)]
      exact same_lookup_toJson hmissing (hfinite name datum hfound) others

end Bindings

/-- **The root object agrees with the bindings.** After any changes of bindings that leave no
infinite number and no `NaN` bound, every path but the root leads to the same in the object of the
root as in the bindings, where it leads on from what the last change of its first segment has left.
Every such datum that is not missing is the same after the way to its document and back. A double
that is an integer below `2 ^ 63` in magnitude becomes that integer, whose double lies at the same
point, and every other finite one stays the double that it is. -/
theorem root_agrees :
    (∀ changes : List Bindings.Change,
      (∀ name datum, (Bindings.after changes).find? name = some datum → datum.IsFinite) →
      ∃ members, (Bindings.after changes).store.lookup .root = .object members ∧
        ∀ segments, segments ≠ [] →
          Datum.same ((Json.object members).store.lookup ⟨segments⟩)
            ((Bindings.after changes).store.lookup ⟨segments⟩) = true) ∧
    (∀ (changes : List Bindings.Change) (name : Text) (others : List Text),
      (Bindings.after changes).store.lookup ⟨name :: others⟩ =
        ((Bindings.bound? changes name).getD .missing).lookup others) ∧
    (∀ datum : Datum, datum.isMissing = false → datum.IsFinite →
      Datum.same (.ofJson datum.toJson) datum = true) ∧
    (∀ (x : Float) (hx : x.isFinite = true),
      (∀ i : Int, Number.point? x = some (.ofRat i) → i.natAbs < 2 ^ 63 →
        (Datum.number x).toJson = .integer i ∧
          Number.point? (Number.ofInteger i) = some (.ofRat i)) ∧
      ((∀ i : Int, Number.point? x = some (.ofRat i) → 2 ^ 63 ≤ i.natAbs) →
        (Datum.number x).toJson = .double ⟨x, hx⟩)) := by
  refine ⟨fun changes hfinite => ⟨_, rfl, fun segments h => ?_⟩, fun changes name others => ?_,
    fun _ => Datum.same_ofJson_toJson, fun x hx => ⟨fun i hi hlt => ?_, ?_⟩⟩
  · exact Bindings.same_lookup_toMembers hfinite h
  · rw [← Bindings.find?_after]
    exact Bindings.lookup_cons _ name others
  · exact ⟨Datum.toJson_number_of_lt hi hlt, Number.point?_ofInteger hi⟩
  · exact Datum.toJson_number_of_le hx

/-- Bindings with a negative zero, an integer from `2 ^ 63` on and something missing, after a `NaN`
was taken away. -/
theorem root_agrees_after_remove :
    ∃ (nan zero : Float) (large : FiniteFloat) (changes : List Bindings.Change),
      nan.isNaN = true ∧ zero ≠ Number.ofInteger 0 ∧
      changes = [.insert ['a'] (.number nan), .insert ['z'] (.number zero),
        .insert ['l'] (.number large.value), .insert ['m'] .missing, .remove ['a']] ∧
      (∃ members, members = [(['l'], .double large), (['z'], .integer 0)] ∧
        (Bindings.after changes).store.lookup .root = .object members ∧
        Datum.same ((Json.object members).store.lookup ⟨[['z']]⟩)
          ((Bindings.after changes).store.lookup ⟨[['z']]⟩) = true) ∧
      (Bindings.after changes).store.lookup ⟨[['a']]⟩ = .missing ∧
      Datum.same (.ofJson (Datum.number zero).toJson) (.number zero) = true ∧
      (Datum.number zero).toJson = .integer 0 ∧
      (Datum.number large.value).toJson = .double large := by
  have hzero : Number.point? (.ofBits 0x8000000000000000) = some (.ofRat (0 : Int)) :=
    Number.toInteger?_eq_some_iff.1 rfl
  have hlarge : Number.toInteger? (.ofBits 0x43E0000000000000) = some (2 ^ 63) := rfl
  refine ⟨.ofBits 0x7FF8000000000000, .ofBits 0x8000000000000000, ⟨.ofBits 0x43E0000000000000, rfl⟩,
    _, rfl, by decide, rfl, ⟨_, rfl, rfl, ?_⟩, ?_, ?_, ?_, ?_⟩
  · obtain ⟨members, hmembers, hsame⟩ := root_agrees.1
      [.insert ['a'] (.number (.ofBits 0x7FF8000000000000)),
        .insert ['z'] (.number (.ofBits 0x8000000000000000)),
        .insert ['l'] (.number (.ofBits 0x43E0000000000000)), .insert ['m'] .missing, .remove ['a']]
      fun name datum hfound x hx => by
        have hentry := Dictionary.mem_of_findValue? hfound
        subst hx
        rcases List.mem_cons.1 hentry with h | hentry
        · cases h
          rfl
        rcases List.mem_cons.1 hentry with h | hentry
        · cases h
        rcases List.mem_cons.1 hentry with h | hentry
        · cases h
          rfl
        · cases hentry
    cases hmembers
    exact hsame [['z']] (List.cons_ne_nil _ _)
  · exact root_agrees.2.1 _ ['a'] []
  · exact root_agrees.2.2.1 _ rfl fun x hx => by cases hx; rfl
  · exact ((root_agrees.2.2.2 _ rfl).1 0 hzero (by decide)).1
  · refine (root_agrees.2.2.2 _ rfl).2 fun i hi => ?_
    cases hlarge.symm.trans (Number.toInteger?_eq_some_iff.2 hi)
    decide

end Assertions
