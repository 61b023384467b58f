import ApiSurface.Fault
import ApiSurface.Check
import ApiSurface.Run
import ApiSurface.Json.Printer

/-!
Log events. Every operation of a run records its start and its end, and an end tells how long the
operation took. An event names the component that it comes from, the operation and what happened, and
then gives further fields.
-/

namespace ApiSurface

inductive LogLevel where
  | debug
  | info
  | error
  deriving DecidableEq, Repr

namespace LogLevel

def label : LogLevel → String
  | .debug => "DEBUG"
  | .info => "INFO"
  | .error => "ERROR"

/-- The level in a column that is as wide as the longest level. -/
def column : LogLevel → String
  | .info => " INFO"
  | level => level.label

end LogLevel

inductive LogProfile where
  /-- Everything, as lines for people. -/
  | development
  /-- All but details, as documents. -/
  | production
  /-- Nothing. -/
  | test
  deriving DecidableEq, Repr

namespace LogProfile

def name : LogProfile → String
  | .development => "development"
  | .production => "production"
  | .test => "test"

def ofName? (name : String) : Option LogProfile :=
  [development, production, test].find? fun profile => profile.name == name

def shows : LogProfile → LogLevel → Bool
  | .development, _ => true
  | .production, level => level != .debug
  | .test, _ => false

end LogProfile

inductive LogValue where
  /-- One of the program's own words, which a line for people puts in quotes. -/
  | word (value : String)
  /-- Any text. A line for people has it as it is, so a line break in it goes on to a new line. -/
  | text (value : String)
  | number (value : Int)
  | truth (value : Bool)
  deriving DecidableEq, Repr

namespace LogValue

def toText : LogValue → String
  | .word value => value
  | .text value => value
  | .number value => toString value
  | .truth value => if value then "true" else "false"

def toJson : LogValue → Json
  | .word value => .text value
  | .text value => .text value
  | .number value => .ofInt value
  | .truth value => .bool value

def shown : LogValue → String
  | .word value => "\"" ++ value ++ "\""
  | value => value.toText

end LogValue

structure LogEvent where
  level : LogLevel
  component : String
  operation : String
  event : String
  /-- The fields beyond those that every event has. -/
  details : List (String × LogValue) := []
  deriving DecidableEq, Repr

namespace LogEvent

def started (component operation : String) (details : List (String × LogValue) := []) : LogEvent :=
  { level := .info, component, operation, event := "start", details }

def finished (component operation : String) (milliseconds : Int)
    (details : List (String × LogValue) := []) : LogEvent :=
  { level := .info, component, operation, event := "end"
    details := ("duration_ms", .number milliseconds) :: details }

def failed (component operation : String) (milliseconds : Int) (fault : Fault)
    (details : List (String × LogValue) := []) : LogEvent :=
  { level := .error, component, operation, event := "end_error"
    details := [("duration_ms", .number milliseconds),
      ("err.kind", .text fault.diagnostic.kind.name),
      ("err.code", .word fault.diagnostic.kind.code)] ++ details }

def fields (e : LogEvent) : List (String × LogValue) :=
  [("component", .word e.component), ("op", .word e.operation), ("event", .word e.event)] ++ e.details

/-- The events of an operation that tell of one sort of happening, in the order of the log. -/
def find (log : List LogEvent) (operation event : String) : List LogEvent :=
  log.filter fun e => e.operation == operation && e.event == event

/-- The event as a line for people, or several ones if a text in it has line breaks. -/
def toText (e : LogEvent) (time : String) : String :=
  time ++ " " ++ e.level.column ++ " " ++ e.component ++ ":" ++
    String.join (e.fields.map fun (name, value) => " " ++ name ++ "=" ++ value.shown)

def toJson (e : LogEvent) (time : String) : Json :=
  .record
    [("timestamp", .text time),
     ("level", .text e.level.label),
     ("fields", .record (e.fields.map fun (name, value) => (name, value.toJson))),
     ("target", .text e.component)]

/-- The line of the log that a profile writes for the event, if it shows it. -/
def line? (profile : LogProfile) (time : String) (e : LogEvent) : Option String :=
  if profile.shows e.level then
    match profile with
    | .production => some (e.toJson time).compact
    | _ => some (e.toText time)
  else none

end LogEvent

def checkComponent : String := "apicompat_core::rules"

def RunContext.startEvent (context : RunContext) : LogEvent :=
  .started checkComponent "check_compatibility"
    [("run_id", .text context.runId.text), ("old_location", .text context.oldLocation),
     ("new_location", .text context.newLocation)]

def Issue.event (issue : Issue) : LogEvent :=
  { level := .debug
    component := checkComponent ++ "::reporter"
    operation := "report_issue"
    event := "issue"
    details := [("issue_kind", .word issue.kind.name),
      ("issue_severity", .word issue.severity.label), ("subject", .text issue.subject)] }

namespace Outcome

def endEvent (outcome : Outcome) (runId : RunId) (milliseconds : Nat) : LogEvent :=
  .finished checkComponent "check_compatibility" milliseconds
    [("run_id", .text runId.text), ("issue_count", .number outcome.issues.length),
     ("found_problems", .truth outcome.foundProblems)]

def context (outcome : Outcome) (runId : RunId) : RunContext :=
  { runId, oldLocation := outcome.oldLocation, newLocation := outcome.newLocation }

def log (outcome : Outcome) (runId : RunId) (milliseconds : Nat) : List LogEvent :=
  (outcome.context runId).startEvent :: outcome.issues.map Issue.event ++
    [outcome.endEvent runId milliseconds]

end Outcome

end ApiSurface
