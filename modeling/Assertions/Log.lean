import Assertions.Evaluation.Trace
import Assertions.Fault
import Assertions.Text.Quoted

/-!
# Stages and log entries

Compiling an assertion goes through stages, and evaluating one through events. Both are data here.
An observer turns the stages that it wants to see into reports of its own kind, and `logger` is the
observer that writes log entries.
-/

namespace Assertions

/-! ### Stages of compiling -/

/-- A step in compiling an expression or an assertion. -/
inductive Stage where
  /-- An assertion was cut into activation and condition. -/
  | split (activation condition : Text)
  /-- The condensed text of an expression was cut into tokens. -/
  | tokens (normalized : Text) (tokens : List PlacedToken)
  /-- An assertion was compiled. -/
  | compiled (source : Text)

/-- What is to be reported of each stage. -/
abbrev Observer (β : Type u) := Stage → List β

namespace Observer

/-- Reports nothing. -/
def silent {β : Type u} : Observer β := fun _ => []

/-- Reports the stages themselves. -/
def recorder : Observer Stage := fun stage => [stage]

end Observer

/-! ### Log entries -/

/-- How much a log entry matters. -/
inductive Level where
  | trace
  | debug
  | warn
deriving DecidableEq, Repr

/-- The name of a level. -/
def Level.name : Level → String
  | .trace => "TRACE"
  | .debug => "DEBUG"
  | .warn => "WARN"

/-- A line of a log. -/
structure LogEntry where
  level : Level
  message : String
deriving DecidableEq, Repr

/-- A text between quotation marks, as log messages show it. -/
def showQuoted (text : Text) : String := String.ofList text.quote

/-- The log entry of a stage. That of the tokens ends with their number. The listing of the tokens
that a log shows behind ` tokens: ` is left out here; the stage itself has them. -/
def Stage.logEntry : Stage → LogEntry
  | .split activation condition =>
    ⟨.debug, "split assertion into activation " ++ showQuoted activation ++ " and condition " ++
      showQuoted condition⟩
  | .tokens normalized placed =>
    ⟨.trace, "tokenized " ++ showQuoted normalized ++ " into " ++ toString placed.length⟩
  | .compiled source => ⟨.debug, "compiled constraint " ++ showQuoted source⟩

/-- Reports the log entry of each stage. -/
def Observer.logger : Observer LogEntry := fun stage => [stage.logEntry]

/-- The log entry of an event. Calls that could be made leave none. -/
def Event.logEntry? : Event → Option LogEntry
  | .called _ _ => none
  | .unregistered name =>
    some ⟨.warn, "call to unregistered function " ++ Cause.inQuotes name ++
      " evaluates to missing"⟩
  | .unresolved text =>
    some ⟨.debug, "message reference " ++ String.ofList text ++ " did not resolve"⟩

/-- The log entries of events, in order. -/
def logEntries (events : List Event) : List LogEntry := events.filterMap Event.logEntry?

end Assertions
