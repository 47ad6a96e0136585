import Assertions.Session
import Assertions.Proofs.Growth

/-!
# Histories of sessions

A host starts with one session, registers functions in its sessions and copies them, in any order.
`Pool.step` is what one such step makes of the sessions, and `Pool.run` what a history does. A
session leads to another one if it becomes that one or is copied to it on the way.

Looking back from a step, a session was there before it with all of its functions but the one that
the step has registered (`Pool.exists_of_step`). By induction over the history, a session has only
functions that were registered in it or in the sessions that lead to it, and what it has stays in
the sessions that it leads to. So does all that is compiled with it.
-/

namespace Assertions

variable {β : Type u}

/-! ### Registering in a session -/

namespace Session

variable {session registered : Session β} {name : Text} {f : HostFunction}

/-- The session after an attempt to register a function, which may fail. -/
def attempt (session : Session β) (name : Text) (f : HostFunction) : Session β :=
  (session.register name f).toOption.getD session

/-- An attempt leaves the session as it is or registers the function. -/
theorem of_attempt (h : session.attempt name f = registered) :
    registered = session ∨ session.register name f = .ok registered := by
  cases hregister : session.register name f with
  | error refusal =>
    rw [attempt, hregister] at h
    exact .inl h.symm
  | ok value =>
    rw [attempt, hregister] at h
    exact .inr (congrArg Except.ok h)

theorem functions_of_register (h : session.register name f = .ok registered) :
    session.functions.register name f = .ok registered.functions := by
  unfold register at h
  split at h
  · cases h
  · rename_i functions hfunctions
    cases h
    exact hfunctions

/-- A registration that succeeds adds the function under its name. -/
theorem find?_of_register (h : session.register name f = .ok registered) :
    registered.functions.find? name = some f := by
  rw [Repertoire.find?_of_register (functions_of_register h), if_pos rfl]

theorem register_eq_error_iff :
    (∃ refusal, session.register name f = .error refusal) ↔
      isIdentifier name = false ∨ isKeyword name = true ∨
        session.functions.contains name = true := by
  rw [← Repertoire.register_eq_error_iff (f := f), register]
  cases session.functions.register name f <;> simp

/-- Whether a later session has all functions of a session, and does the same with all that could be
compiled before. -/
structure Keeps (session later : Session β) : Prop where
  within : session.functions.Within later.functions
  formula : ∀ source formula, (session.compileFormula source).1 = .ok formula →
    ∃ again, (later.compileFormula source).1 = .ok again ∧ again.expr = formula.expr ∧
      ∀ world, again.evaluate world = formula.evaluate world
  assertion : ∀ source assertion, (session.compileAssertion source).1 = .ok assertion →
    ∃ again, (later.compileAssertion source).1 = .ok again ∧
      again.activation = assertion.activation ∧ again.condition = assertion.condition ∧
      ∀ world, again.check world = assertion.check world

theorem keeps_of_within {later : Session β} (h : session.functions.Within later.functions) :
    session.Keeps later where
  within := h
  formula _ _ hformula := Formula.exists_of_within h hformula
  assertion _ _ hassertion := Assertion.exists_of_within h hassertion

end Session

/-! ### Steps -/

/-- The sessions of a host, in the order in which they came up. A session that is gone leaves its
place empty. -/
abbrev Pool (β : Type u) := List (Option (Session β))

/-- What a host does with the session at a place. -/
inductive Step where
  /-- It registers a function. If that fails the session stays as it is. -/
  | register (i : Nat) (name : Text) (f : HostFunction)
  /-- It goes on with a session that has one more function. If that fails the session is gone. -/
  | extend (i : Nat) (name : Text) (f : HostFunction)
  /-- It makes a copy, which gets a new place. -/
  | clone (i : Nat)

namespace Pool

/-- The pool that a host starts with. -/
def start (observer : Observer β) : Pool β := [some (Session.empty observer)]

/-- The pool after a step. -/
def step (pool : Pool β) : Step → Pool β
  | .register i name f => pool.modify i (·.map (·.attempt name f))
  | .extend i name f => pool.modify i (·.bind fun session => (session.register name f).toOption)
  | .clone i => pool ++ [pool[i]?.join]

/-- The pool after a history of steps. -/
def run (pool : Pool β) (history : List Step) : Pool β := history.foldl step pool

/-- The pool of a host after all that it has done so far. -/
def after (observer : Observer β) (history : List Step) : Pool β := (start observer).run history

/-- Whether the session at one place is the one at another place after some steps, or was copied to
it on the way. -/
inductive Leads : Pool β → (i : Nat) → List Step → (j : Nat) → Prop
  | here (pool : Pool β) (i : Nat) : Leads pool i [] i
  | stay {pool : Pool β} {i j : Nat} (first : Step) {steps : List Step}
    (h : Leads (pool.step first) i steps j) : Leads pool i (first :: steps) j
  | copy {pool : Pool β} {i j : Nat} {steps : List Step}
    (h : Leads (pool.step (.clone i)) pool.length steps j) : Leads pool i (.clone i :: steps) j

/-- Whether a step registers a function in the session at a place. -/
def Registers (pool : Pool β) (step : Step) (i : Nat) (name : Text) (f : HostFunction) : Prop :=
  (step = .register i name f ∨ step = .extend i name f) ∧
    ∃ session registered, pool[i]? = some (some session) ∧
      session.register name f = .ok registered

/-- Whether one of some steps registers a function in a session that leads to the one at a place. -/
def HasRegistered (pool : Pool β) (steps : List Step) (j : Nat) (name : Text) (f : HostFunction) :
    Prop :=
  ∃ front first back i, steps = front ++ first :: back ∧
    (pool.run front).Registers first i name f ∧ ((pool.run front).step first).Leads i back j

variable {pool : Pool β} {i j : Nat} {session later : Session β} {name : Text} {f : HostFunction}

/-! ### One step -/

theorem exists_of_modify {g : Option (Session β) → Option (Session β)}
    (h : (pool.modify i g)[j]? = some (some later)) :
    ∃ place, pool[j]? = some place ∧ (place = some later ∨ i = j ∧ g place = some later) := by
  rw [List.getElem?_modify, Option.map_eq_map, Option.map_eq_some_iff] at h
  obtain ⟨place, hplace, hg⟩ := h
  refine ⟨place, hplace, ?_⟩
  by_cases hij : i = j
  · rw [if_pos hij] at hg
    exact .inr ⟨hij, hg⟩
  · rw [if_neg hij] at hg
    exact .inl hg

/-- A session was there before a step, with the functions that it has, except for one that the step
registers. -/
theorem exists_of_step {first : Step} (hj : j < pool.length)
    (h : (pool.step first)[j]? = some (some later)) :
    ∃ session, pool[j]? = some (some session) ∧
      (later = session ∨ ∃ name f, (first = .register j name f ∨ first = .extend j name f) ∧
        session.register name f = .ok later) := by
  cases first with
  | register i name f =>
    obtain ⟨place, hplace, rfl | ⟨rfl, hg⟩⟩ := exists_of_modify h
    · exact ⟨later, hplace, .inl rfl⟩
    · obtain ⟨session, rfl, hattempt⟩ := Option.map_eq_some_iff.1 hg
      refine ⟨session, hplace, (Session.of_attempt hattempt).imp_right ?_⟩
      intro hregister
      exact ⟨name, f, .inl rfl, hregister⟩
  | extend i name f =>
    obtain ⟨place, hplace, rfl | ⟨rfl, hg⟩⟩ := exists_of_modify h
    · exact ⟨later, hplace, .inl rfl⟩
    · obtain ⟨session, rfl, hoption⟩ := Option.bind_eq_some_iff.1 hg
      refine ⟨session, hplace, .inr ⟨name, f, .inr rfl, ?_⟩⟩
      cases hregister : session.register name f with
      | error refusal =>
        rw [hregister] at hoption
        cases hoption
      | ok registered =>
        rw [hregister] at hoption
        cases hoption
        rfl
  | clone i =>
    rw [step, List.getElem?_append_left hj] at h
    exact ⟨later, h, .inl rfl⟩

/-- A copy is the session that it was made of. -/
theorem eq_of_clone (h : (pool.step (.clone i))[pool.length]? = some (some later)) :
    pool[i]? = some (some later) := by
  rw [step, List.getElem?_concat_length, Option.some.injEq] at h
  exact Option.join_eq_some_iff.1 h

/-- A step that makes a new place makes a copy. -/
theorem exists_clone_of_step {first : Step} (hj : ¬j < pool.length)
    (h : (pool.step first)[j]? = some (some later)) : ∃ i, first = .clone i ∧ j = pool.length := by
  have hlength : j < (pool.step first).length := (List.getElem?_eq_some_iff.1 h).1
  cases first with
  | register | extend =>
    rw [step, List.length_modify] at hlength
    exact absurd hlength hj
  | clone i =>
    rw [step, List.length_append, List.length_singleton] at hlength
    exact ⟨i, rfl, by omega⟩

theorem length_le_step (pool : Pool β) (first : Step) : pool.length ≤ (pool.step first).length := by
  cases first <;> simp [step]

/-- A registration that fails leaves the pool as it is, and takes no session but its own away if it
was to go on with it. -/
theorem step_of_error (hi : pool[i]? = some (some session))
    (h : ∃ refusal, session.register name f = .error refusal) :
    pool.step (.register i name f) = pool ∧ pool.step (.extend i name f) = pool.set i none := by
  obtain ⟨refusal, hrefusal⟩ := h
  have hlength : i < pool.length := (List.getElem?_eq_some_iff.1 hi).1
  constructor
  · apply List.ext_getElem?
    intro k
    rw [step, List.getElem?_modify]
    by_cases hk : i = k
    · subst hk
      simp [hi, Session.attempt, hrefusal, Except.toOption]
    · simp [hk]
  · apply List.ext_getElem?
    intro k
    rw [step, List.getElem?_modify]
    by_cases hk : i = k
    · subst hk
      rw [hi, List.getElem?_set_self hlength]
      simp [hrefusal, Except.toOption]
    · simp [hk]

/-- A registration that succeeds puts the session with the function in the place of the session
without it, also if it was to go on with it. -/
theorem step_of_ok {registered : Session β} (hi : pool[i]? = some (some session))
    (h : session.register name f = .ok registered) :
    (pool.step (.register i name f))[i]? = some (some registered) ∧
      (pool.step (.extend i name f))[i]? = some (some registered) := by
  constructor
  · rw [step, List.getElem?_modify_eq, hi]
    simp [Session.attempt, h, Except.toOption]
  · rw [step, List.getElem?_modify_eq, hi]
    simp [h, Except.toOption]

/-- A function that a step registers is in the session from then on. -/
theorem Registers.exists_session {first : Step} (h : pool.Registers first i name f) :
    ∃ registered, (pool.step first)[i]? = some (some registered) ∧
      registered.functions.find? name = some f := by
  obtain ⟨hfirst, session, registered, hi, hregister⟩ := h
  obtain ⟨hinPlace, hextended⟩ := step_of_ok hi hregister
  refine ⟨registered, ?_, Session.find?_of_register hregister⟩
  rcases hfirst with rfl | rfl
  · exact hinPlace
  · exact hextended

/-! ### Histories -/

/-- A session was there before in the place that leads to it, with no more functions. The induction
looks back from the later session, because an empty place on the way leads to none. -/
theorem Leads.exists_within {steps : List Step} (h : pool.Leads i steps j) (hi : i < pool.length)
    (hj : (pool.run steps)[j]? = some (some later)) :
    ∃ session, pool[i]? = some (some session) ∧ session.functions.Within later.functions := by
  induction h with
  | here pool i => exact ⟨later, hj, .refl _⟩
  | stay first hrest ih =>
    rename_i pool i j steps
    obtain ⟨middle, hmiddle, hwithin⟩ := ih (Nat.lt_of_lt_of_le hi (length_le_step pool first)) hj
    obtain ⟨session, hsession, rfl | ⟨name, f, -, hregister⟩⟩ := exists_of_step hi hmiddle
    · exact ⟨middle, hsession, hwithin⟩
    · have hfunctions := Session.functions_of_register hregister
      exact ⟨session, hsession, (Repertoire.Within.of_register hfunctions).trans hwithin⟩
  | copy hrest ih =>
    rename_i pool i j steps
    have hlength : pool.length < (pool.step (.clone i)).length := by simp [step]
    obtain ⟨copied, hcopied, hwithin⟩ := ih hlength hj
    exact ⟨copied, eq_of_clone hcopied, hwithin⟩

/-- A function that a session has after a step is in the session that leads to it by that step, or
the step registers it. -/
theorem exists_leads_of_step {first : Step} {steps : List Step}
    (hi : (pool.step first)[i]? = some (some later)) (hf : later.functions.find? name = some f)
    (hleads : (pool.step first).Leads i steps j) :
    (∃ k session, pool[k]? = some (some session) ∧ pool.Leads k (first :: steps) j ∧
      session.functions.find? name = some f) ∨ pool.Registers first i name f := by
  by_cases hlength : i < pool.length
  · obtain ⟨session, hsession, rfl | ⟨name', f', hfirst, hregister⟩⟩ := exists_of_step hlength hi
    · exact .inl ⟨i, later, hsession, .stay first hleads, hf⟩
    · have hfunctions := Session.functions_of_register hregister
      rw [Repertoire.find?_of_register hfunctions] at hf
      by_cases hname : name' = name
      · rw [if_pos hname] at hf
        subst hname
        cases hf
        exact .inr ⟨hfirst, session, later, hsession, hregister⟩
      · rw [if_neg hname] at hf
        exact .inl ⟨i, session, hsession, .stay first hleads, hf⟩
  · -- The place is new, so the step has made a copy and the function is that of its original.
    obtain ⟨k, rfl, rfl⟩ := exists_clone_of_step hlength hi
    exact .inl ⟨k, later, eq_of_clone hi, .copy hleads, hf⟩

/-- A function of a session is in one that leads to it or was registered on the way. -/
theorem exists_leads_of_find? {steps : List Step} :
    ∀ {pool : Pool β} {j : Nat} {later : Session β}, (pool.run steps)[j]? = some (some later) →
      later.functions.find? name = some f →
      (∃ i session, pool[i]? = some (some session) ∧ pool.Leads i steps j ∧
        session.functions.find? name = some f) ∨ pool.HasRegistered steps j name f := by
  induction steps with
  | nil =>
    intro pool j later hj hf
    exact .inl ⟨j, later, hj, .here pool j, hf⟩
  | cons first steps ih =>
    intro pool j later hj hf
    have hrest : ((pool.step first).run steps)[j]? = some (some later) := hj
    rcases ih hrest hf with ⟨i, middle, hmiddle, hleads, hmf⟩ | hlater
    · refine (exists_leads_of_step hmiddle hmf hleads).imp_right ?_
      intro hregisters
      exact ⟨[], first, steps, i, rfl, hregisters, hleads⟩
    · obtain ⟨front, second, back, i, rfl, hregisters, hleads⟩ := hlater
      exact .inr ⟨first :: front, second, back, i, rfl, hregisters, hleads⟩

/-- The first session has no functions, so each one is from the history. -/
theorem hasRegistered_of_find? {observer : Observer β} {history : List Step}
    (hj : (after observer history)[j]? = some (some later))
    (hf : later.functions.find? name = some f) :
    (start observer).HasRegistered history j name f := by
  rcases exists_leads_of_find? hj hf with ⟨i, session, hsession, -, hnone⟩ | hregistered
  · have hempty : session = Session.empty observer := by
      have hmem := List.mem_of_getElem? hsession
      simpa [start] using hmem
    subst hempty
    cases hnone
  · exact hregistered

/-- A function that was registered in a session is in all that the session leads to. -/
theorem find?_of_hasRegistered {steps : List Step} (h : pool.HasRegistered steps j name f)
    (hj : (pool.run steps)[j]? = some (some later)) : later.functions.find? name = some f := by
  obtain ⟨front, first, back, i, rfl, hregisters, hleads⟩ := h
  obtain ⟨registered, hregistered, hf⟩ := hregisters.exists_session
  rw [run, List.foldl_append, List.foldl_cons] at hj
  obtain ⟨session, hsession, hwithin⟩ :=
    hleads.exists_within (List.getElem?_eq_some_iff.1 hregistered).1 hj
  rw [hregistered] at hsession
  cases hsession
  exact hwithin name f hf

/-- **Histories.** After any history, every function of a session was registered under its name, an
identifier but no keyword, in that session or in one that leads to it, and every function that was
registered there is found. A registration fails exactly if the name is no identifier, a keyword or
registered, and then nothing is changed by it. If it succeeds the session has the function and those
that it had. Whatever is done next, a session keeps its functions, also in its copies, and what it
can compile is compiled again to the same trees, with the same data, verdicts and calls. -/
theorem keeps_after (observer : Observer β) (history : List Step) :
    (∀ i session, (after observer history)[i]? = some (some session) → ∀ name f,
      (session.functions.find? name = some f →
        isIdentifier name = true ∧ name ≠ Symbol.always ∧ name ≠ Symbol.when ∧
          (start observer).HasRegistered history i name f) ∧
      ((start observer).HasRegistered history i name f →
        session.functions.find? name = some f) ∧
      (∀ registered, session.register name f = .ok registered →
        ((after observer history).step (.register i name f))[i]? = some (some registered) ∧
        ((after observer history).step (.extend i name f))[i]? = some (some registered) ∧
        ∀ other, registered.functions.find? other =
          if name = other then some f else session.functions.find? other) ∧
      ((∃ refusal, session.register name f = .error refusal) ↔
        isIdentifier name = false ∨ isKeyword name = true ∨
          session.functions.contains name = true) ∧
      ((∃ refusal, session.register name f = .error refusal) →
        (after observer history).step (.register i name f) = after observer history ∧
        (after observer history).step (.extend i name f) =
          (after observer history).set i none)) ∧
    ∀ i session steps j later, (after observer history)[i]? = some (some session) →
      (after observer history).Leads i steps j →
      ((after observer history).run steps)[j]? = some (some later) → session.Keeps later := by
  constructor
  · intro i session hsession name f
    refine ⟨fun hf => ?_, fun hregistered => find?_of_hasRegistered hregistered hsession,
      fun registered hregister => ?_, Session.register_eq_error_iff, step_of_error hsession⟩
    · have hfunction := Repertoire.isFunctionName_of_contains (Repertoire.contains_of_find? hf)
      simp only [isFunctionName, isKeyword, Bool.and_eq_true, Bool.not_eq_true',
        Bool.or_eq_false_iff, beq_eq_false_iff_ne] at hfunction
      exact ⟨hfunction.1, hfunction.2.1, hfunction.2.2, hasRegistered_of_find? hsession hf⟩
    · obtain ⟨hinPlace, hextended⟩ := step_of_ok hsession hregister
      refine ⟨hinPlace, hextended, fun other => ?_⟩
      exact Repertoire.find?_of_register (Session.functions_of_register hregister) other
  · intro i session steps j later hsession hleads hlater
    have hlength : i < (after observer history).length := (List.getElem?_eq_some_iff.1 hsession).1
    obtain ⟨first, hfirst, hwithin⟩ := hleads.exists_within hlength hlater
    rw [hsession] at hfirst
    cases hfirst
    exact Session.keeps_of_within hwithin

/-- A session that is copied. As a copy it has the function of the first one, refuses its name and
gets another function. -/
theorem keeps_after_clone :
    ∃ session later : Session Stage,
      (after Observer.recorder [.register 0 ['f'] (.statement fun _ => .null)])[0]? =
        some (some session) ∧
      ((after Observer.recorder [.register 0 ['f'] (.statement fun _ => .null)]).run
        [.clone 0, .register 1 ['f'] (.statement fun _ => .missing),
          .extend 1 ['g'] (.statement fun _ => .missing)])[1]? = some (some later) ∧
      later.functions.find? ['f'] = some (.statement fun _ => .null) ∧
      session.functions.contains ['g'] = false ∧ later.functions.contains ['g'] = true ∧
      session.Keeps later := by
  refine ⟨_, _, rfl, rfl, rfl, rfl, rfl, ?_⟩
  exact (keeps_after Observer.recorder [.register 0 ['f'] (.statement fun _ => .null)]).2 0 _
    [.clone 0, .register 1 ['f'] (.statement fun _ => .missing),
      .extend 1 ['g'] (.statement fun _ => .missing)] 1 _ rfl
    (.copy (.stay _ (.stay _ (.here _ _)))) rfl

end Pool

end Assertions
