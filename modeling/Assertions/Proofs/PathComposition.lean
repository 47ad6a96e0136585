import Assertions.Proofs.StoreKinds

/-!
# Look-ups of composed paths

Looking up a path in two parts gives what looking it up at once gives: the first part leads to a
datum, and the second one leads on from its array or object. From anything else, missing data
included, no further segment leads anywhere.

`Datum.lookup` is the second look-up. It goes on where the first one stopped
(`Datum.lookup_append`), and the laws for documents and for bindings follow from that, as each of
them is a look-up behind one datum (`Json.lookup_eq`, `Bindings.lookup_cons`).
-/

namespace Assertions

/-! ### Leading on from a datum -/

/-- What segments lead to from a datum: no segments to the datum itself, and others into its array
or object. -/
def Datum.lookup : Datum → List Text → Datum
  | datum, [] => datum
  | .array items, segment :: others => (Json.array items).lookup (segment :: others)
  | .object members, segment :: others => (Json.object members).lookup (segment :: others)
  | _, _ :: _ => .missing

namespace Json

/-- A walk in two parts. -/
theorem walk?_append (json : Json) (p q : List Text) :
    json.walk? (p ++ q) = (json.walk? p).bind (walk? · q) := by
  induction p generalizing json with
  | nil => rfl
  | cons segment others ih =>
    rw [List.cons_append, walk?, walk?, Option.bind_assoc]
    exact Option.bind_congr fun part _ => ih part

/-- A look-up in a document leads on from the datum of the document. -/
theorem lookup_eq (json : Json) (segments : List Text) :
    json.lookup segments = (Datum.ofJson json).lookup segments := by
  cases segments with
  | nil => rfl
  | cons segment others => cases json <;> rfl

theorem lookup_append (json : Json) (p q : List Text) :
    json.lookup (p ++ q) = (json.lookup p).lookup q := by
  rw [lookup, lookup, walk?_append]
  cases json.walk? p with
  | none => cases q <;> rfl
  | some part => exact lookup_eq part q

end Json

namespace Datum

theorem lookup_nil (datum : Datum) : datum.lookup [] = datum := by
  cases datum <;> rfl

theorem lookup_missing (segments : List Text) : missing.lookup segments = missing := by
  cases segments <;> rfl

theorem lookup_array (items : List Json) (segments : List Text) :
    (array items).lookup segments = (Json.array items).lookup segments :=
  (Json.lookup_eq (.array items) segments).symm

theorem lookup_object (members : List (Text × Json)) (segments : List Text) :
    (object members).lookup segments = (Json.object members).lookup segments :=
  (Json.lookup_eq (.object members) segments).symm

/-- Leading on in two parts. -/
theorem lookup_append (datum : Datum) (p q : List Text) :
    datum.lookup (p ++ q) = (datum.lookup p).lookup q := by
  cases p with
  | nil => rw [List.nil_append, lookup_nil]
  | cons segment others =>
    cases datum with
    | array items => exact Json.lookup_append (.array items) (segment :: others) q
    | object members => exact Json.lookup_append (.object members) (segment :: others) q
    | missing | null | bool | number | string => exact (lookup_missing q).symm

/-- The document of a number is a number or null. -/
theorem numberToJson_cases (x : Float) :
    (∃ i, numberToJson x = .integer i) ∨ (∃ y, numberToJson x = .double y) ∨
      numberToJson x = .null := by
  have hdouble : (∃ y, numberToJson.ofDouble x = .double y) ∨ numberToJson.ofDouble x = .null := by
    rw [numberToJson.ofDouble]
    split
    · exact .inl ⟨_, rfl⟩
    · exact .inr rfl
  rw [numberToJson]
  split
  · split
    · exact .inl ⟨_, rfl⟩
    · exact .inr hdouble
  · exact .inr hdouble

/-- Further segments lead on in the same way from a datum and from its document. -/
theorem lookup_eq_lookup_toJson (datum : Datum) {segments : List Text} (h : segments ≠ []) :
    datum.lookup segments = datum.toJson.lookup segments := by
  rw [Json.lookup_eq]
  obtain ⟨segment, others, rfl⟩ := List.exists_cons_of_ne_nil h
  cases datum with
  | number x =>
    rw [toJson]
    rcases numberToJson_cases x with ⟨i, hx⟩ | ⟨y, hx⟩ | hx <;> rw [hx] <;> rfl
  | missing | null | bool | string | array | object => rfl

end Datum

/-- The first segment names a binding, and the others lead on from its datum. -/
theorem Bindings.lookup_cons (bindings : Bindings) (name : Text) (others : List Text) :
    bindings.lookup (name :: others) = ((bindings.find? name).getD .missing).lookup others := by
  cases others with
  | nil => exact (Datum.lookup_nil _).symm
  | cons segment rest =>
    rw [Bindings.lookup]
    cases bindings.find? name with
    | none => rfl
    | some datum => cases datum <;> rfl
    exact List.cons_ne_nil _ _

theorem Bindings.lookup_append (bindings : Bindings) {p : List Text} (h : p ≠ []) (q : List Text) :
    bindings.lookup (p ++ q) = (bindings.lookup p).lookup q := by
  cases p with
  | nil => exact absurd rfl h
  | cons name others =>
    rw [List.cons_append, lookup_cons, lookup_cons, Datum.lookup_append]

/-! ### Stores -/

/-- Whether look-ups in a store go on behind a path in what the path leads to: in its array or
object, and nowhere if it is neither. -/
structure Store.ComposesAt (store : Store) (p : List Text) : Prop where
  nil : store.lookup ⟨p ++ []⟩ = store.lookup ⟨p⟩
  array (items : List Json) (h : store.lookup ⟨p⟩ = .array items) (q : List Text) :
    store.lookup ⟨p ++ q⟩ = (Json.array items).store.lookup ⟨q⟩
  object (members : List (Text × Json)) (h : store.lookup ⟨p⟩ = .object members) (q : List Text) :
    store.lookup ⟨p ++ q⟩ = (Json.object members).store.lookup ⟨q⟩
  other (harray : ∀ items, store.lookup ⟨p⟩ ≠ .array items)
    (hobject : ∀ members, store.lookup ⟨p⟩ ≠ .object members) (q : List Text) (hq : q ≠ []) :
    store.lookup ⟨p ++ q⟩ = .missing

namespace Store

variable {store : Store} {p : List Text}

theorem composesAt_of_forall (h : ∀ q, store.lookup ⟨p ++ q⟩ = (store.lookup ⟨p⟩).lookup q) :
    store.ComposesAt p where
  nil := by rw [List.append_nil]
  array items hitems q := by
    rw [h, hitems]
    exact Datum.lookup_array items q
  object members hmembers q := by
    rw [h, hmembers]
    exact Datum.lookup_object members q
  other harray hobject q hq := by
    rw [h]
    obtain ⟨segment, others, rfl⟩ := List.exists_cons_of_ne_nil hq
    cases hdatum : store.lookup ⟨p⟩ with
    | array items => exact absurd hdatum (harray items)
    | object members => exact absurd hdatum (hobject members)
    | missing | null | bool | number | string => rfl

/-- Behind a path that is missing there is nothing. -/
theorem ComposesAt.lookup_missing (h : store.ComposesAt p) (hp : store.lookup ⟨p⟩ = .missing)
    (q : List Text) : store.lookup ⟨p ++ q⟩ = .missing := by
  cases q with
  | nil => rw [h.nil, hp]
  | cons segment others =>
    refine h.other (fun items => ?_) (fun members => ?_) _ (List.cons_ne_nil _ _) <;>
      rw [hp] <;> nofun

/-- Reading a part and then a path in its document is reading the composed path. -/
theorem ComposesAt.lookup_toJson (h : store.ComposesAt p) {q : List Text} (hq : q ≠ []) :
    (store.lookup ⟨p⟩).toJson.store.lookup ⟨q⟩ = store.lookup ⟨p ++ q⟩ := by
  show (store.lookup ⟨p⟩).toJson.lookup q = _
  rw [← Datum.lookup_eq_lookup_toJson _ hq]
  cases hdatum : store.lookup ⟨p⟩ with
  | array items => exact (Datum.lookup_array items q).trans (h.array items hdatum q).symm
  | object members => exact (Datum.lookup_object members q).trans (h.object members hdatum q).symm
  | missing | null | bool | number | string =>
    obtain ⟨segment, others, rfl⟩ := List.exists_cons_of_ne_nil hq
    refine (h.other ?_ ?_ _ hq).symm <;> rw [hdatum] <;> nofun

end Store

theorem Json.composesAt (json : Json) (p : List Text) : json.store.ComposesAt p :=
  Store.composesAt_of_forall (json.lookup_append p)

/-- **Look-ups compose along paths.** In a document, in a shared document and behind every binding,
a composed path leads to what its second part leads to in the array or object at the end of its
first part, and to nothing if there is none. So nothing is found behind what is missing, and reading
a part and then a path in it agrees with reading the composed path. -/
theorem lookups_compose :
    (∀ (json : Json) (p : List Text), json.store.ComposesAt p) ∧
    (∀ (json : Json) (p : List Text), (Document.store ⟨json⟩).ComposesAt p) ∧
    (∀ (bindings : Bindings) (p : List Text), p ≠ [] → bindings.store.ComposesAt p) ∧
    (∀ (store : Store) (p : List Text), store.ComposesAt p →
      (store.lookup ⟨p⟩ = .missing → ∀ q, store.lookup ⟨p ++ q⟩ = .missing) ∧
      ∀ q, q ≠ [] → (store.lookup ⟨p⟩).toJson.store.lookup ⟨q⟩ = store.lookup ⟨p ++ q⟩) := by
  refine ⟨Json.composesAt, fun json p => ?_, fun bindings p hp => ?_, fun store p h => ?_⟩
  · rw [Json.WholeStore.shared.eq_store]
    exact json.composesAt p
  · exact Store.composesAt_of_forall (bindings.lookup_append hp)
  · exact ⟨h.lookup_missing, fun q => h.lookup_toJson⟩

/-- An item of an array in an object that is bound to a name. -/
theorem lookups_compose_bound_item :
    ∃ bindings : Bindings, bindings.store.lookup ⟨[['a'], ['b'], ['1']]⟩ = .bool true ∧
      (∀ members, bindings.store.lookup ⟨[['a']]⟩ = .object members →
        bindings.store.lookup ⟨[['a'], ['b'], ['1']]⟩ =
          (Json.object members).store.lookup ⟨[['b'], ['1']]⟩) ∧
      (bindings.store.lookup ⟨[['a']]⟩).toJson.store.lookup ⟨[['b'], ['1']]⟩ = .bool true ∧
      bindings.store.lookup ⟨[['a'], ['c']]⟩ = .missing ∧
      bindings.store.lookup ⟨[['a'], ['c'], ['d']]⟩ = .missing := by
  refine ⟨Dictionary.empty.insert ['a'] (.object [(['b'], .array [.null, .bool true])]), rfl, ?_,
    ?_, rfl, ?_⟩
  · intro members hmembers
    exact (lookups_compose.2.2.1 _ [['a']] (by decide)).object members hmembers [['b'], ['1']]
  · refine (lookups_compose.2.2.2 _ [['a']] ?_).2 [['b'], ['1']] (by decide)
    exact lookups_compose.2.2.1 _ _ (by decide)
  · refine (lookups_compose.2.2.2 _ [['a'], ['c']] ?_).1 rfl [['d']]
    exact lookups_compose.2.2.1 _ _ (by decide)

end Assertions
