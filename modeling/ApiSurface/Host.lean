import ApiSurface.Config
import ApiSurface.Snapshot

/-!
Hosts. A host is what a run needs from outside: files, the time and a place for its log. Everything
else that a run does is the same on every host.
-/

namespace ApiSurface

/-- The surroundings of a run. -/
structure Host (m : Type → Type) where
  /-- The content of a file, or what the system says of it. -/
  fetch : String → m (Except String ByteArray)
  /-- The milliseconds since some fixed time. -/
  clock : m Nat
  /-- An id for a run that starts now. -/
  newRunId : m RunId
  /-- Logs an event in the way of a profile. -/
  log : LogProfile → LogEvent → m Unit

namespace Host

variable {m : Type → Type} [Monad m] (host : Host m)

def readText (path : String) : m (Except Fault String) := do
  match ← host.fetch path with
  | .error message => return .error (.fileAccess path message)
  | .ok content =>
    match String.fromUTF8? content with
    | some text => return .ok text
    | none => return .error (.fileAccess path "stream did not contain valid UTF-8")

def loadConfig (path : String) : m (Except Fault Config) := do
  let text ← host.readText path
  return text.bind fun text => (Config.parse text).mapError ConfigFailure.fault

def snapshotComponent : String := "apicompat_core::snapshot"

/-- The surface in a file. The serial tells it from all other surfaces of the run. -/
def loadSurface (profile : LogProfile) (serial : Nat) (path : String) :
    m (Except Fault Surface) := do
  host.log profile (.started snapshotComponent "load_snapshot" [("path", .text path)])
  let start ← host.clock
  let text ← host.readText path
  let surface := text.bind fun text =>
    (Surface.parse text path).mapError (SnapshotFailure.fault path)
  let milliseconds := (← host.clock) - start
  match surface with
  | .ok surface =>
    host.log profile (.finished snapshotComponent "load_snapshot" milliseconds
      [("item_count", .number surface.size)])
    return .ok { surface with serial }
  | .error fault =>
    host.log profile (.failed snapshotComponent "load_snapshot" milliseconds fault)
    return .error fault

/-- Checks a view against another one in a run of its own. -/
def check (profile : LogProfile) (old new : View) (filter : Filter) (severities : SeverityTable) :
    m (RunId × Outcome) := do
  let runId ← host.newRunId
  host.log profile (RunContext.startEvent
    { runId, oldLocation := old.primary.location, newLocation := new.primary.location })
  let start ← host.clock
  let outcome := ApiSurface.check old new filter severities
  outcome.issues.forM fun issue => host.log profile issue.event
  host.log profile (outcome.endEvent runId ((← host.clock) - start))
  return (runId, outcome)

end Host

end ApiSurface
