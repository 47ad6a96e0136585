import Assertions.Assertion
import Assertions.Template.Rendering

/-!
# Sessions

A session is what a host program works with: the functions it has registered so far, and an
observer of compiling. Sessions are values. A formula or an assertion keeps the functions of the
session that compiled it, and a session in which more functions are registered is another one.
-/

namespace Assertions

/-- Registered functions, and an observer whose reports have type `β`. -/
structure Session (β : Type u) where
  functions : Repertoire
  observer : Observer β

namespace Session

variable {β : Type u}

/-- The session without functions. -/
def empty (observer : Observer β) : Session β := ⟨.empty, observer⟩

/-- The session with one more function. -/
def register (session : Session β) (name : Text) (f : HostFunction) :
    Except Refusal (Session β) :=
  match session.functions.register name f with
  | .error refusal => .error refusal
  | .ok functions => .ok { session with functions }

/-- The formula of a text, and what the observer reports. -/
def compileFormula (session : Session β) (source : Text) : Except Refusal Formula × List β :=
  let staged := Formula.compile session.functions source
  (staged.result, staged.observedBy session.observer)

/-- The assertion of a text, and what the observer reports. -/
def compileAssertion (session : Session β) (source : Text) : Except Refusal Assertion × List β :=
  let staged := Assertion.compile session.functions source
  (staged.result, staged.observedBy session.observer)

/-- The message of a template in a world. -/
def render (session : Session β) (world : World) (template : Text) : Traced (Except Fault Text) :=
  Template.render session.functions world template

end Session

/-! ### Short descriptions -/

/-- How many functions a repertoire has, in words. -/
def Repertoire.count (functions : Repertoire) : String := toString functions.size ++ " functions"

/-- A session in one line. -/
def Session.describe {β : Type u} (session : Session β) : String :=
  "Env \x7b functions: " ++ showQuoted session.functions.count.toList ++ ", .. \x7d"

/-- A formula in one line. -/
def Formula.describe (formula : Formula) : String :=
  "Program \x7b source: " ++ showQuoted formula.source ++ ", functions: " ++
    showQuoted formula.functions.count.toList ++ " \x7d"

/-- A registered function in one line. -/
def HostFunction.describe (name : Text) : String :=
  "Function \x7b name: " ++ showQuoted name ++ ", .. \x7d"

end Assertions
