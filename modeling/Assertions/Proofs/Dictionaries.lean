import Assertions.Dictionary

/-!
# Laws of dictionaries

What is found in the entries of a dictionary after they were put in one by one, mapped or filtered.
Entries in increasing order are determined by what is found among them (`eq_of_findValue?`), so two
dictionaries with the same values under the same names are one.
-/

namespace Assertions.Dictionary

variable {α : Type u} {β : Type v}

/-- A name in front of all entries is not found among them. -/
theorem findValue?_eq_none {name : Text} {entries : List (Text × α)}
    (h : ∀ e ∈ entries, name.Before e.1) : findValue? name entries = none := by
  cases hfound : findValue? name entries with
  | none => rfl
  | some value =>
    have hbefore : name.Before name := h _ (mem_of_findValue? hfound)
    rw [Text.Before] at hbefore
    simp at hbefore

/-- A name in front of the first entry is not found. -/
theorem findValue?_eq_none_of_before {name key : Text} {value : α} {rest : List (Text × α)}
    (hsorted : ((key, value) :: rest).Pairwise fun a b => a.1.Before b.1) (h : name.Before key) :
    findValue? name ((key, value) :: rest) = none := by
  obtain ⟨hkey, -⟩ := List.pairwise_cons.1 hsorted
  refine findValue?_eq_none fun e he => ?_
  rcases List.mem_cons.1 he with rfl | he
  · exact h
  · exact before_trans h (hkey e he)

/-- Values put under names in increasing order are found first. -/
theorem find?_foldl_insert {entries : List (Text × α)}
    (hsorted : entries.Pairwise fun a b => a.1.Before b.1) (d : Dictionary α) (name : Text) :
    (entries.foldl (fun d e => d.insert e.1 e.2) d).find? name =
      (findValue? name entries).or (d.find? name) := by
  induction entries generalizing d with
  | nil => rfl
  | cons entry rest ih =>
    obtain ⟨key, value⟩ := entry
    obtain ⟨hkey, hrest⟩ := List.pairwise_cons.1 hsorted
    rw [List.foldl_cons, ih hrest, find?_insert, findValue?]
    by_cases hname : key = name
    · -- the key does not come up again, as all that follow are larger
      rw [if_pos hname, if_pos hname, ← hname, findValue?_eq_none hkey, Option.none_or,
        Option.some_or]
    · rw [if_neg hname, if_neg hname]

/-- What is listed in increasing order is found in the dictionary of the list. -/
theorem find?_ofList {entries : List (Text × α)}
    (hsorted : entries.Pairwise fun a b => a.1.Before b.1) (name : Text) :
    (ofList entries).find? name = findValue? name entries := by
  have hnone : (empty : Dictionary α).find? name = none := rfl
  rw [ofList, find?_foldl_insert hsorted, hnone, Option.or_none]

theorem findValue?_map (f : α → β) (name : Text) (entries : List (Text × α)) :
    findValue? name (entries.map fun e => (e.1, f e.2)) =
      (findValue? name entries).map f := by
  induction entries with
  | nil => rfl
  | cons entry rest ih =>
    obtain ⟨key, value⟩ := entry
    rw [List.map_cons, findValue?, findValue?, ih]
    split <;> rfl

/-- Filtering entries in increasing order by their values filters what is found. -/
theorem findValue?_filter_value {entries : List (Text × α)}
    (hsorted : entries.Pairwise fun a b => a.1.Before b.1) (keep : α → Bool) (name : Text) :
    findValue? name (entries.filter fun e => keep e.2) =
      (findValue? name entries).filter keep := by
  induction entries with
  | nil => rfl
  | cons entry rest ih =>
    obtain ⟨key, value⟩ := entry
    obtain ⟨hkey, hrest⟩ := List.pairwise_cons.1 hsorted
    cases hkeep : keep value with
    | true =>
      rw [List.filter_cons_of_pos (by simpa using hkeep), findValue?, findValue?, ih hrest]
      split
      · rw [Option.filter_some_pos hkeep]
      · rfl
    | false =>
      rw [List.filter_cons_of_neg (by simp [hkeep]), findValue?, ih hrest]
      split
      · next hname =>
        rw [← hname, findValue?_eq_none hkey, Option.filter_some_neg (by simp [hkeep])]
        rfl
      · rfl

/-- Entries in increasing order with the same values under the same names are the same. -/
theorem eq_of_findValue? {entries others : List (Text × α)}
    (hsorted : entries.Pairwise fun a b => a.1.Before b.1)
    (hsorted' : others.Pairwise fun a b => a.1.Before b.1)
    (h : ∀ name, findValue? name entries = findValue? name others) : entries = others := by
  induction entries generalizing others with
  | nil =>
    cases others with
    | nil => rfl
    | cons entry rest => simpa [findValue?] using h entry.1
  | cons entry rest ih =>
    cases others with
    | nil => simpa [findValue?] using h entry.1
    | cons entry' rest' =>
      obtain ⟨key, value⟩ := entry
      obtain ⟨key', value'⟩ := entry'
      obtain ⟨hkey, hrest⟩ := List.pairwise_cons.1 hsorted
      obtain ⟨hkey', hrest'⟩ := List.pairwise_cons.1 hsorted'
      have heq : key = key' := by
        cases hcompare : compare key key' with
        | eq => exact Std.LawfulEqCmp.eq_of_compare hcompare
        | lt =>
          have hfound := h key
          rw [findValue?_eq_none_of_before hsorted' hcompare, findValue?, if_pos rfl] at hfound
          cases hfound
        | gt =>
          have hbefore : key'.Before key := Std.OrientedCmp.lt_of_gt hcompare
          have hfound := h key'
          rw [findValue?_eq_none_of_before hsorted hbefore, findValue?, if_pos rfl] at hfound
          cases hfound
      subst heq
      obtain rfl : value = value' := by simpa [findValue?] using h key
      rw [ih hrest hrest' fun name => ?_]
      by_cases hname : key = name
      · rw [← hname, findValue?_eq_none hkey, findValue?_eq_none hkey']
      · simpa [findValue?, hname] using h name

end Assertions.Dictionary
