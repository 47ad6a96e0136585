import Assertions.Proofs.AssertionGrammar
import Assertions.Proofs.MoreNames

/-!
# More functions

A repertoire lies within another one if each of its functions is there under the same name. What is
compiled against the first is compiled against the second in the same way, as more names change
nothing in what can be read. It also evaluates in the same way, since the names that it calls are
names of the first repertoire (`callsOnly_of_ofText`).
-/

namespace Assertions

/-! ### Repertoires -/

namespace Repertoire

variable {functions wider : Repertoire} {name : Text} {f : HostFunction}

/-- A registration fails exactly if the name is no identifier, a keyword or registered. -/
theorem register_eq_error_iff :
    (∃ refusal, functions.register name f = .error refusal) ↔
      isIdentifier name = false ∨ isKeyword name = true ∨ functions.contains name = true := by
  unfold register
  by_cases hfunction : isFunctionName name = true
  · have hname := hfunction
    simp only [isFunctionName, Bool.and_eq_true, Bool.not_eq_true'] at hname
    rw [dif_pos hfunction]
    by_cases hknown : functions.contains name = true
    · simp [hknown]
    · simp [hknown, hname]
  · rw [dif_neg hfunction]
    have hname : isIdentifier name = false ∨ isKeyword name = true := by
      by_cases hidentifier : isIdentifier name = true
      · right
        simpa [isFunctionName, hidentifier] using hfunction
      · left
        simpa using hidentifier
    rw [← or_assoc]
    exact ⟨fun _ => .inl hname, fun _ => ⟨_, rfl⟩⟩

/-- Registering puts a function under its name and leaves the others. -/
theorem find?_of_register {registered : Repertoire}
    (h : functions.register name f = .ok registered) (other : Text) :
    registered.find? other = if name = other then some f else functions.find? other := by
  unfold register at h
  split at h
  · split at h
    · cases h
    · cases h
      exact Dictionary.find?_insert _ _ _ _
  · cases h

theorem contains_of_find? (h : functions.find? name = some f) : functions.contains name = true := by
  rw [contains, Dictionary.contains]
  exact Option.isSome_of_eq_some h

/-- Whether every function of a repertoire is in another one under the same name. -/
def Within (functions wider : Repertoire) : Prop :=
  ∀ name f, functions.find? name = some f → wider.find? name = some f

namespace Within

theorem refl (functions : Repertoire) : functions.Within functions := fun _ _ h => h

theorem trans {widest : Repertoire} (h : functions.Within wider) (h' : wider.Within widest) :
    functions.Within widest := fun name f hf => h' name f (h name f hf)

theorem of_register {registered : Repertoire}
    (h : functions.register name f = .ok registered) : functions.Within registered := by
  intro other g hg
  have hnew : ¬(functions.contains name = true) := by
    intro hknown
    obtain ⟨refusal, hrefusal⟩ := register_eq_error_iff.2 (.inr (.inr hknown))
    rw [h] at hrefusal
    cases hrefusal
  have hother : name ≠ other := by
    rintro rfl
    exact hnew (contains_of_find? hg)
  rw [find?_of_register h, if_neg hother]
  exact hg

variable (h : functions.Within wider)
include h

theorem contains (hname : functions.contains name = true) : wider.contains name = true := by
  obtain ⟨f, hf⟩ := Option.isSome_iff_exists.1 hname
  exact contains_of_find? (h name f hf)

/-- A name that is known calls the same function. -/
theorem call_eq (hname : functions.contains name = true) (world : World)
    (args : Traced (List Datum)) :
    wider.call world name args = functions.call world name args := by
  obtain ⟨f, hf⟩ := Option.isSome_iff_exists.1 hname
  have hfunction : functions.find? name = some f := hf
  rw [call, call, hfunction, h name f hfunction]

end Within

end Repertoire

/-! ### Names that are called -/

namespace Expr

variable {names : Text → Bool} {functions wider : Repertoire}

/-- The name that a node calls. -/
def callee? : Expr → Option Text
  | .statement _ name | .call _ name _ => some name
  | _ => none

/-- Whether all names that are called in an expression are known. -/
def CallsOnly (names : Text → Bool) (e : Expr) : Prop :=
  ∀ n ∈ e.nodes, ∀ name, n.callee? = some name → names name = true

theorem CallsOnly.callee {e : Expr} {name : Text} (h : e.CallsOnly names)
    (hname : e.callee? = some name) : names name = true :=
  h e (mem_nodes_self e) name hname

theorem CallsOnly.of_mem_children {e child : Expr} (h : e.CallsOnly names)
    (hchild : child ∈ e.children) : child.CallsOnly names :=
  fun n hn => h n (mem_nodes_trans hn (mem_nodes_of_mem_children hchild))

/-- What is read calls only known names. -/
theorem callsOnly_of_ofText {source : Text} {e : Expr} (h : Expr.ofText names source = .ok e) :
    e.CallsOnly names := by
  obtain ⟨p, hp, -, rfl⟩ := exists_phrase_of_ofText h
  intro n hn name hname
  obtain ⟨q, start, rfl, -, hq⟩ := hp.part_of_mem_nodes hn
  cases hq.spelled with
  | ref | string | number | binary | group => cases hname
  | statement _ hknown | call _ hknown =>
    cases hname
    exact hknown

/-- Several expressions have the same data if each of them has. -/
theorem evaluateAll_congr {world other : World} {list : List Expr}
    (h : ∀ e ∈ list, e.evaluate wider other = e.evaluate functions world) :
    evaluateAll wider other list = evaluateAll functions world list := by
  induction list with
  | nil => rfl
  | cons e rest ih =>
    obtain ⟨he, hrest⟩ := List.forall_mem_cons.1 h
    rw [evaluateAll, evaluateAll, he, ih hrest]

/-- An expression that calls only known names evaluates in the same way with more of them. -/
theorem evaluate_of_within (h : functions.Within wider) (world : World) {e : Expr}
    (he : e.CallsOnly functions.contains) :
    e.evaluate wider world = e.evaluate functions world := by
  induction e with
  | ref | string | number => simp only [evaluate]
  | statement span name =>
    rw [evaluate, evaluate, h.call_eq (he.callee rfl)]
  | call span name args ih =>
    have hargs := evaluateAll_congr fun arg harg => ih arg harg (he.of_mem_children harg)
    rw [evaluate, evaluate, hargs, h.call_eq (he.callee rfl)]
  | binary op left right ihl ihr =>
    have hleft := ihl (he.of_mem_children List.mem_cons_self)
    have hright := ihr (he.of_mem_children (List.mem_cons_of_mem _ List.mem_cons_self))
    rw [evaluate, evaluate, hleft, hright]
  | group span inner ih =>
    rw [evaluate, evaluate, ih (he.of_mem_children List.mem_cons_self)]

end Expr

/-! ### Formulas and assertions -/

section

variable {functions wider : Repertoire} (h : functions.Within wider)
include h

/-- What is read stays what it is with more names. -/
theorem ofText_of_within {source : Text} {e : Expr}
    (he : Expr.ofText functions.contains source = .ok e) :
    Expr.ofText wider.contains source = .ok e := by
  rcases ofText_persists (fun _ hname => h.contains hname) source with heq | ⟨fault, hfault, -⟩
  · rw [heq, he]
  · rw [he] at hfault
    cases hfault

/-- A formula is compiled to the same expression with more functions, and has the same datum. -/
theorem Formula.exists_of_within {source : Text} {formula : Formula}
    (hformula : (Formula.compile functions source).result = .ok formula) :
    ∃ later, (Formula.compile wider source).result = .ok later ∧ later.expr = formula.expr ∧
      ∀ world, later.evaluate world = formula.evaluate world := by
  obtain ⟨e, he, rfl⟩ := Formula.result_compile_eq_ok_iff.1 hformula
  refine ⟨⟨source, e, wider⟩, ?_, rfl, fun world => ?_⟩
  · exact Formula.result_compile_eq_ok_iff.2 ⟨e, ofText_of_within h he, rfl⟩
  · exact Expr.evaluate_of_within h world (Expr.callsOnly_of_ofText he)

theorem Activation.Denotes.of_within {text : Text} {activation : Activation}
    (hdenotes : Denotes functions text activation) : Denotes wider text activation := by
  cases hdenotes with
  | always => exact .always
  | gate hname => exact .gate (h.contains hname)
  | guard htext => exact .guard (ofText_of_within h htext)

namespace Assertion.IsCut

variable {source before after : Text} {activation : Activation} {condition : Expr}
  (hcut : IsCut functions source before after activation condition)
include hcut

theorem of_within : IsCut wider source before after activation condition where
  condense_eq := hcut.condense_eq
  denotes := hcut.denotes.of_within h
  condition_eq := ofText_of_within h hcut.condition_eq

/-- An activation calls only known names, so it holds in the same worlds. -/
theorem isActive_of_within (world : World) :
    isActive ⟨source, activation, condition, wider⟩ world =
      isActive ⟨source, activation, condition, functions⟩ world := by
  obtain ⟨-, hdenotes, -⟩ := hcut
  cases hdenotes with
  | always => rfl
  | gate hname => simp only [isActive, h.call_eq hname]
  | guard htext =>
    simp only [isActive, Expr.evaluate_of_within h world (Expr.callsOnly_of_ofText htext)]

theorem check_of_within (world : World) :
    check ⟨source, activation, condition, wider⟩ world =
      check ⟨source, activation, condition, functions⟩ world := by
  have hcondition :=
    Expr.evaluate_of_within h world (Expr.callsOnly_of_ofText hcut.condition_eq)
  simp only [check, hcut.isActive_of_within h, hcondition]

end Assertion.IsCut

/-- An assertion is compiled to the same activation and condition with more functions, and says the
same about every world. -/
theorem Assertion.exists_of_within {source : Text} {assertion : Assertion}
    (hassertion : (Assertion.compile functions source).result = .ok assertion) :
    ∃ later, (Assertion.compile wider source).result = .ok later ∧
      later.activation = assertion.activation ∧ later.condition = assertion.condition ∧
      ∀ world, later.check world = assertion.check world := by
  obtain ⟨before, after, activation, condition, hcut, rfl⟩ := exists_isCut_of_compile hassertion
  exact ⟨_, (hcut.of_within h).result_compile, rfl, rfl, hcut.check_of_within h⟩

end

end Assertions
