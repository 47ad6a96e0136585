import Assertions.Text

/-!
# Dictionaries

A dictionary holds values under names, at most one under each. Its entries are in increasing order
of their names, compared by code points, which is also the order of their UTF-8 forms.
-/

namespace Assertions

/-- The text order on names: one comes before the other. -/
def Text.Before (a b : Text) : Prop := compare a b = .lt

/-- Values under names, in increasing order of the names. -/
structure Dictionary (α : Type u) where
  entries : List (Text × α)
  sorted : entries.Pairwise fun a b => a.1.Before b.1

namespace Dictionary

variable {α : Type u} {β : Type v}

/-! ### Operations on the entries -/

/-- The first value under a name. -/
def findValue? (name : Text) : List (Text × α) → Option α
  | [] => none
  | (key, value) :: rest => if key = name then some value else findValue? name rest

/-- The entries with a value put under a name, in the place of the one that was there. -/
def insertEntry (name : Text) (value : α) : List (Text × α) → List (Text × α)
  | [] => [(name, value)]
  | (key, old) :: rest =>
    match compare name key with
    | .lt => (name, value) :: (key, old) :: rest
    | .eq => (name, value) :: rest
    | .gt => (key, old) :: insertEntry name value rest

theorem mem_insertEntry {name : Text} {value : α} {entries : List (Text × α)} {e : Text × α}
    (h : e ∈ insertEntry name value entries) : e = (name, value) ∨ e ∈ entries := by
  induction entries with
  | nil => simpa [insertEntry] using h
  | cons entry rest ih =>
    obtain ⟨key, old⟩ := entry
    simp only [insertEntry] at h
    split at h
    · simpa using h
    · simp only [List.mem_cons] at h ⊢
      rcases h with h | h
      · exact Or.inl h
      · exact Or.inr (Or.inr h)
    · simp only [List.mem_cons] at h ⊢
      rcases h with h | h
      · exact Or.inr (Or.inl h)
      · rcases ih h with h | h
        · exact Or.inl h
        · exact Or.inr (Or.inr h)

theorem before_trans {a b c : Text} (hab : a.Before b) (hbc : b.Before c) : a.Before c :=
  Std.TransCmp.lt_trans hab hbc

theorem sorted_insertEntry (name : Text) (value : α) {entries : List (Text × α)}
    (h : entries.Pairwise fun a b => a.1.Before b.1) :
    (insertEntry name value entries).Pairwise fun a b => a.1.Before b.1 := by
  induction entries with
  | nil => simp [insertEntry]
  | cons entry rest ih =>
    obtain ⟨key, old⟩ := entry
    obtain ⟨hkey, hrest⟩ := List.pairwise_cons.1 h
    simp only [insertEntry]
    split
    · next hlt =>
      refine List.pairwise_cons.2 ⟨?_, h⟩
      intro e he
      rcases List.mem_cons.1 he with rfl | he
      · exact hlt
      · exact before_trans hlt (hkey e he)
    · next heq =>
      have hname : name = key := Std.LawfulEqCmp.eq_of_compare heq
      exact List.pairwise_cons.2 ⟨fun e he => hname ▸ hkey e he, hrest⟩
    · next hgt =>
      refine List.pairwise_cons.2 ⟨?_, ih hrest⟩
      intro e he
      rcases mem_insertEntry he with rfl | he
      · exact Std.OrientedCmp.lt_of_gt hgt
      · exact hkey e he

/-- What is found after putting a value under a name: that value, or what was found before. -/
theorem findValue?_insertEntry (name other : Text) (value : α) (entries : List (Text × α)) :
    findValue? other (insertEntry name value entries) =
      if name = other then some value else findValue? other entries := by
  induction entries with
  | nil => rfl
  | cons entry rest ih =>
    obtain ⟨key, old⟩ := entry
    simp only [insertEntry]
    split
    · simp only [findValue?]
    · next heq =>
      have hname : name = key := Std.LawfulEqCmp.eq_of_compare heq
      subst hname
      simp only [findValue?]
      split <;> rfl
    · next hgt =>
      have hne : name ≠ key := fun h => by
        subst h
        simp at hgt
      simp only [findValue?, ih]
      by_cases hkey : key = other
      · rw [if_pos hkey, if_neg (fun h => hne (h.trans hkey.symm)), if_pos hkey]
      · rw [if_neg hkey, if_neg hkey]

/-- Filtering out a name leaves what is under the others. -/
theorem findValue?_filter (name other : Text) (entries : List (Text × α)) :
    findValue? other (entries.filter (·.1 ≠ name)) =
      if name = other then none else findValue? other entries := by
  induction entries with
  | nil => simp [findValue?]
  | cons entry rest ih =>
    obtain ⟨key, old⟩ := entry
    by_cases hkey : key = name
    · subst hkey
      rw [List.filter_cons_of_neg (by simp), ih]
      by_cases hother : key = other
      · rw [if_pos hother, if_pos hother]
      · rw [if_neg hother, if_neg hother, findValue?, if_neg hother]
    · rw [List.filter_cons_of_pos (by simpa using hkey), findValue?, findValue?, ih]
      by_cases hother : key = other
      · rw [if_pos hother, if_pos hother, if_neg (fun h => hkey (hother.trans h.symm))]
      · rw [if_neg hother, if_neg hother]

/-- What is found under a name is an entry with that name. -/
theorem mem_of_findValue? {name : Text} {value : α} {entries : List (Text × α)}
    (h : findValue? name entries = some value) : (name, value) ∈ entries := by
  induction entries with
  | nil => cases h
  | cons entry rest ih =>
    obtain ⟨key, old⟩ := entry
    rw [findValue?] at h
    split at h
    · next hkey =>
      cases h
      rw [hkey]
      exact List.mem_cons_self
    · exact List.mem_cons_of_mem _ (ih h)

/-! ### Dictionaries -/

/-- The dictionary without entries. -/
def empty : Dictionary α := ⟨[], .nil⟩

/-- The value under a name. -/
def find? (d : Dictionary α) (name : Text) : Option α := findValue? name d.entries

/-- Whether there is a value under a name. -/
def contains (d : Dictionary α) (name : Text) : Bool := (d.find? name).isSome

/-- The dictionary with a value put under a name, in the place of the one that was there. -/
def insert (d : Dictionary α) (name : Text) (value : α) : Dictionary α :=
  ⟨insertEntry name value d.entries, sorted_insertEntry name value d.sorted⟩

/-- The dictionary without the value under a name. -/
def erase (d : Dictionary α) (name : Text) : Dictionary α :=
  ⟨d.entries.filter (·.1 ≠ name), d.sorted.filter _⟩

/-- A dictionary of entries given in any order. Of two under one name the later one stays. -/
def ofList (entries : List (Text × α)) : Dictionary α :=
  entries.foldl (fun d e => d.insert e.1 e.2) empty

/-- The number of entries. -/
def size (d : Dictionary α) : Nat := d.entries.length

/-- The names in increasing order. -/
def names (d : Dictionary α) : List Text := d.entries.map (·.1)

/-- Putting a value under a name changes what is under that name only. -/
theorem find?_insert (d : Dictionary α) (name other : Text) (value : α) :
    (d.insert name value).find? other = if name = other then some value else d.find? other :=
  findValue?_insertEntry name other value d.entries

/-- Removing a name changes what is under that name only. -/
theorem find?_erase (d : Dictionary α) (name other : Text) :
    (d.erase name).find? other = if name = other then none else d.find? other :=
  findValue?_filter name other d.entries

end Dictionary

end Assertions
