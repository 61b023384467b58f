import ApiSurface.Check
import ApiSurface.Run
import ApiSurface.Json.Printer

/-!
Reports: the outcome of a check for people and for programs.
-/

namespace ApiSurface

def Issue.line (issue : Issue) : String :=
  issue.severity.label ++ ": " ++ issue.subject ++ ": " ++ issue.message ++ " [" ++
    issue.kind.name ++ "]\n"

def Issue.toJson (issue : Issue) : Json :=
  .record
    [("kind", .text issue.kind.name),
     ("severity", .text issue.severity.label),
     ("subject", .text issue.subject),
     ("message", .text issue.message)]

namespace Outcome

def toText (outcome : Outcome) : String := String.join (outcome.issues.map Issue.line)

/-- The whole outcome as a document, with the id of the run that it comes from. -/
def toJson (outcome : Outcome) (runId : RunId) : Json :=
  .record
    [("run_id", .text runId.text),
     ("old_location", .text outcome.oldLocation),
     ("new_location", .text outcome.newLocation),
     ("issues", .array (outcome.issues.map Issue.toJson)),
     ("found_problems", .bool outcome.foundProblems)]

def renderJson (outcome : Outcome) (runId : RunId) : String := (outcome.toJson runId).pretty

end Outcome

end ApiSurface
