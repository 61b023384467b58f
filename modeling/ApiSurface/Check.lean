import ApiSurface.Comparison
import ApiSurface.Rules.Matched
import ApiSurface.Rules.Presence

/-!
Checks. A check compares the primary surfaces of two views and collects what the rules find, in the
order of the comparison. Only then do severities decide which findings are recorded as issues and
whether the check fails, so they never influence what is found.
-/

namespace ApiSurface

namespace RuleContext

/-- What the rules say about one event of the comparison. -/
def findings (context : RuleContext) : Event → List Finding
  | .matched old new => Rules.Matched.findings context old new
  | .removed old place => Rules.Presence.removed context old place
  | .added new => Rules.Presence.added context new

def allFindings (context : RuleContext) : List Finding :=
  (context.oldView.primary.compare context.newView.primary context.filter).flatMap context.findings

end RuleContext

/-- The issues recorded so far, and whether one of them is an error. -/
structure Tally where
  issues : List Issue := []
  foundProblems : Bool := false
  deriving DecidableEq, Repr

namespace Tally

/-- Records a finding with the severity of its kind. A hidden one leaves no trace. -/
def record (severities : SeverityTable) (tally : Tally) (finding : Finding) : Tally :=
  match severities finding.kind with
  | .hidden => tally
  | severity =>
    { issues := tally.issues ++
        [{ kind := finding.kind
           severity
           subject := finding.subject.describe
           message := finding.message }]
      foundProblems := tally.foundProblems || severity == .error }

def states (severities : SeverityTable) (tally : Tally) : List Finding → List Tally
  | [] => []
  | finding :: rest =>
    let tally := tally.record severities finding
    tally :: states severities tally rest

end Tally

structure Outcome where
  oldLocation : String
  newLocation : String
  /-- The issues in the order of the comparison. -/
  issues : List Issue
  /-- Whether an issue is an error. -/
  foundProblems : Bool
  deriving DecidableEq, Repr

namespace Outcome

def errorCount (outcome : Outcome) : Nat :=
  outcome.issues.countP fun issue => issue.severity == .error

def summary (outcome : Outcome) : String :=
  "Found " ++ toString outcome.errorCount ++ " compatibility error(s) comparing " ++
    outcome.oldLocation ++ " (old) against " ++ outcome.newLocation ++ " (new)"

end Outcome

/-- Checks the primary surface of one view against that of another. -/
def check (old new : View) (filter : Filter) (severities : SeverityTable) : Outcome :=
  let tally := RuleContext.allFindings { oldView := old, newView := new, filter }
    |>.foldl (Tally.record severities) {}
  { oldLocation := old.primary.location
    newLocation := new.primary.location
    issues := tally.issues
    foundProblems := tally.foundProblems }

/-- Checks a surface against another one. The old surface may have left out classes that the new one
still declares, so it is asked for them. -/
def Surface.check (old new : Surface) (filter : Filter) (severities : SeverityTable) : Outcome :=
  ApiSurface.check (old.alone.extend [new]) new.alone filter severities

end ApiSurface
