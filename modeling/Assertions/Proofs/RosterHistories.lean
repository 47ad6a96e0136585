import Assertions.Roster.NameSet
import Mathlib.Data.List.Induction

/-!
# Histories of rosters

A host registers names in a roster, or goes on with a roster that has one more name. It may do both
in any order and with any texts. Either way the roster is the one after an attempt to register the
name (`Roster.perform_snd`), so after a history of calls it is the roster of the list of all names
that were attempted (`Roster.after_eq_ofList`). That list without its later repeats is what the
roster holds (`Roster.names_ofList`).

A roster gives the same answers as any other `NameSet` of the names that were attempted
(`Roster.histories_exact`).
-/

namespace Assertions

namespace Roster

/-! ### Calls -/

/-- What a host does with a roster. -/
inductive Call where
  /-- It registers a name in place. -/
  | register (name : Text)
  /-- It goes on with a roster that has one more name, or with a copy of the one that it had. -/
  | withName (name : Text)

/-- The name that a call attempts to register. -/
def Call.name : Call → Text
  | .register name | .withName name => name

/-- The answer to a call, and the roster that the host goes on with. -/
def perform (roster : Roster) : Call → Except Refusal Unit × Roster
  | .register name => roster.register name
  | .withName name =>
    match roster.withName name with
    | .ok more => (.ok (), more)
    | .error refusal => (.error refusal, roster)

/-- The roster after a history of calls on a new one. -/
def after (history : List Call) : Roster :=
  history.foldl (fun roster call => (roster.perform call).2) empty

variable {roster more : Roster} {name : Text}

/-! ### One call -/

theorem register?_eq_none_iff : roster.register? name = none ↔ name ∈ roster.names := by
  unfold register?
  split
  · rename_i hmem
    exact iff_of_true rfl hmem
  · rename_i hnone
    exact iff_of_false nofun hnone

theorem names_of_register? (h : roster.register? name = some more) :
    more.names = roster.names ++ [name] := by
  unfold register? at h
  split at h
  · cases h
  · cases h
    rfl

/-- Both calls answer and go on as registering does. -/
theorem perform_eq (roster : Roster) (call : Call) :
    roster.perform call = roster.register call.name := by
  cases call with
  | register name => rfl
  | withName name =>
    simp only [perform, withName, register, Call.name]
    cases roster.register? name <;> rfl

/-- **One call.** After a call the roster is the one after an attempt to register its name. -/
theorem perform_snd (roster : Roster) (call : Call) :
    (roster.perform call).2 = roster.attempt call.name := by
  rw [perform_eq, register, attempt]
  cases roster.register? call.name <;> rfl

/-- A name that is in the roster is refused, and nothing changes. -/
theorem perform_of_mem {call : Call} (h : call.name ∈ roster.names) :
    roster.perform call = (.error (.duplicate call.name), roster) := by
  rw [perform_eq, register, register?_eq_none_iff.2 h]

/-- A name that is not in the roster is put behind the others. -/
theorem exists_perform_of_not_mem {call : Call} (h : call.name ∉ roster.names) :
    ∃ more, roster.perform call = (.ok (), more) ∧ more.names = roster.names ++ [call.name] := by
  obtain ⟨more, hmore⟩ :=
    Option.ne_none_iff_exists'.1 fun hnone => h (register?_eq_none_iff.1 hnone)
  refine ⟨more, ?_, names_of_register? hmore⟩
  rw [perform_eq, register, hmore]

theorem names_attempt (roster : Roster) (name : Text) :
    (roster.attempt name).names =
      if name ∈ roster.names then roster.names else roster.names ++ [name] := by
  unfold attempt
  split
  · rename_i hmem
    rw [register?_eq_none_iff.2 hmem]
    rfl
  · rename_i hnone
    obtain ⟨more, hmore⟩ :=
      Option.ne_none_iff_exists'.1 fun h => hnone (register?_eq_none_iff.1 h)
    rw [hmore]
    exact names_of_register? hmore

/-! ### Histories -/

/-- A repeat at the end of a list is dropped. -/
theorem eraseDups_concat (names : List Text) (name : Text) :
    (names ++ [name]).eraseDups =
      if name ∈ names then names.eraseDups else names.eraseDups ++ [name] := by
  rw [List.eraseDups_append, List.removeAll]
  by_cases hmem : name ∈ names
  · simp [hmem]
  · simp [hmem, List.eraseDups_cons]

/-- **Lists of names.** The roster of a list holds the names of the list without later repeats. -/
theorem names_ofList (names : List Text) : (ofList names).names = names.eraseDups := by
  induction names using List.reverseRecOn with
  | nil => rfl
  | append_singleton front name ih =>
    have hlast : ofList (front ++ [name]) = (ofList front).attempt name := by
      rw [ofList, List.foldl_append]
      rfl
    rw [hlast, names_attempt, ih, eraseDups_concat]
    simp only [List.mem_eraseDups]

/-- **Histories.** Only the names that were attempted matter, and not the kinds of calls. -/
theorem after_eq_ofList (history : List Call) : after history = ofList (history.map Call.name) := by
  rw [after, ofList, List.foldl_map]
  simp only [perform_snd]

theorem mem_names_after (history : List Call) (name : Text) :
    name ∈ (after history).names ↔ name ∈ history.map Call.name := by
  rw [after_eq_ofList, names_ofList, List.mem_eraseDups]

theorem contains_after_iff (history : List Call) (name : Text) :
    (after history).contains name = true ↔ name ∈ history.map Call.name := by
  rw [contains, List.contains_iff_mem, mem_names_after]

/-- **Rosters.** After any history of calls a roster holds the names that were attempted, without
later repeats, in the order in which they were attempted first. Another call is refused exactly if
its name was attempted before, and then nothing changes. The names that were attempted, and no
others, are contained in the roster, and stay so. Every other set of these names gives the same
answers, whatever the hashes of the names are. -/
theorem histories_exact (history : List Call) :
    (after history).names = (history.map Call.name).eraseDups ∧
    (∀ call : Call,
      (call.name ∈ history.map Call.name →
        (after history).perform call = (.error (.duplicate call.name), after history)) ∧
      (call.name ∉ history.map Call.name → ∃ more, (after history).perform call = (.ok (), more) ∧
        more.names = (after history).names ++ [call.name] ∧ more = after (history ++ [call]))) ∧
    (∀ name, (after history).contains name = true ↔ name ∈ history.map Call.name) ∧
    (∀ later name, (after history).contains name = true →
      (after (history ++ later)).contains name = true) ∧
    ∀ hashing : Hashable Text, ∀ set ∈ [NameSet.roster (after history),
        .hashed hashing (.ofList (history.map Call.name)),
        .sorted (.ofList (history.map Call.name) compare), .slice (history.map Call.name),
        .array (history.map Call.name).toArray],
      ∀ name, set.isRegistered name = (after history).contains name := by
  refine ⟨?_, fun call => ⟨fun hmem => ?_, fun hnone => ?_⟩, contains_after_iff history, ?_, ?_⟩
  · rw [after_eq_ofList, names_ofList]
  · exact perform_of_mem ((mem_names_after history call.name).2 hmem)
  · obtain ⟨more, hmore, hnames⟩ := exists_perform_of_not_mem
      fun hmem => hnone ((mem_names_after history call.name).1 hmem)
    refine ⟨more, hmore, hnames, ?_⟩
    rw [after, List.foldl_append]
    exact (congrArg Prod.snd hmore).symm
  · intro later name hname
    rw [contains_after_iff, List.map_append, List.mem_append]
    exact .inl ((contains_after_iff history name).1 hname)
  · intro hashing set hset name
    have hlist : (after history).contains name = (history.map Call.name).contains name := by
      rw [Bool.eq_iff_iff, contains_after_iff, List.contains_iff_mem]
    simp only [List.mem_cons, List.not_mem_nil, or_false] at hset
    rcases hset with rfl | rfl | rfl | rfl | rfl
    · rfl
    · exact (NameSet.isRegistered_hashed hashing _ name).trans hlist.symm
    · exact (NameSet.isRegistered_sorted _ name).trans hlist.symm
    · exact hlist.symm
    · exact List.contains_toArray.trans hlist.symm

/-- A name that is attempted again in the other way, and a text that is no identifier. -/
theorem histories_exact_repeats :
    (after [.register ['f'], .withName [' '], .withName ['f']]).names = [['f'], [' ']] ∧
    (after [.register ['f'], .withName [' '], .withName ['f']]).perform (.register [' ']) =
      (.error (.duplicate [' ']), after [.register ['f'], .withName [' '], .withName ['f']]) ∧
    (NameSet.sorted (.ofList [['f'], [' '], ['f']] compare)).isRegistered [' '] = true := by
  obtain ⟨hnames, hcalls, hcontains, -, hsets⟩ :=
    histories_exact [.register ['f'], .withName [' '], .withName ['f']]
  refine ⟨hnames.trans (by decide), (hcalls (.register [' '])).1 (by decide), ?_⟩
  have hset := hsets ⟨fun name => name.length.toUInt64⟩
    (.sorted (.ofList [['f'], [' '], ['f']] compare)) (by simp [Call.name]) [' ']
  exact hset.trans ((hcontains [' ']).2 (by decide))

end Roster

end Assertions
