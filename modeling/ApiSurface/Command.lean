import ApiSurface.Command.Arguments
import ApiSurface.Host
import ApiSurface.Report

/-!
The command line. A run loads the configuration first, then the old, the new and the baseline
snapshots, stops at the first fault, and otherwise prints the report of the check.
-/

namespace ApiSurface

inductive Conclusion where
  | help
  | misuse
  | failed (fault : Fault)
  | checked (format : ReportFormat) (runId : RunId) (outcome : Outcome)

namespace Conclusion

def usage : String :=
  "Usage: apicompat check --old <JSON> --new <JSON> [--baseline <JSON>]... [--config <TOML>] " ++
    "[--format text|json] [--all-members]\n"

/-- The exit code: 0 if all is well, 1 if the check found an error, 2 if there was no check. -/
def exitCode : Conclusion → Nat
  | .help => 0
  | .misuse | .failed _ => 2
  | .checked _ _ outcome => if outcome.foundProblems then 1 else 0

def output : Conclusion → String
  | .help => usage
  | .misuse | .failed _ => ""
  | .checked .text _ outcome => outcome.toText
  | .checked .json runId outcome => outcome.renderJson runId ++ "\n"

def complaint : Conclusion → String
  | .help => ""
  | .misuse => usage
  | .failed fault => "Error: " ++ fault.message ++ "\n"
  | .checked _ _ outcome => if outcome.foundProblems then outcome.summary ++ "\n" else ""

end Conclusion

namespace CheckRequest

variable {m : Type → Type} [Monad m] (request : CheckRequest) (host : Host m)

def filter : Filter := if request.allMembers then Filter.all else Filter.published

def loadConfig : m (Except Fault Config) :=
  match request.config with
  | some path => host.loadConfig path
  | none => return .ok {}

def run : ExceptT Fault m Conclusion := do
  let config ← ExceptT.mk (request.loadConfig host)
  let profile := config.profile.getD .development
  let old ← ExceptT.mk (host.loadSurface profile 0 request.old)
  let new ← ExceptT.mk (host.loadSurface profile 1 request.new)
  let baselines ← request.baselines.zipIdx.mapM fun (path, i) =>
    ExceptT.mk (host.loadSurface profile (i + 2) path)
  let (runId, outcome) ← host.check profile (old.alone.extend (new :: baselines))
    (new.alone.extend baselines) request.filter config.severities
  return .checked request.format runId outcome

end CheckRequest

namespace Command

def run {m : Type → Type} [Monad m] (host : Host m) (arguments : List String) : m Conclusion := do
  match parse arguments with
  | .help => return .help
  | .misuse => return .misuse
  | .check request =>
    match ← (request.run host).run with
    | .ok conclusion => return conclusion
    | .error fault => return .failed fault

end Command

end ApiSurface
