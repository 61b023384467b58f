import Std.Time
import ApiSurface.Command

/-!
The program: the command line with files, clock and log of the system.
-/

namespace ApiSurface

/-- What the system says of an error, with its number if it has one. Some errors come with the number
negated. -/
def systemMessage : IO.Error → String
  | .alreadyExists _ code details | .otherError code details | .resourceBusy code details
  | .resourceVanished code details | .unsupportedOperation code details
  | .hardwareFault code details | .unsatisfiedConstraints code details
  | .illegalOperation code details | .protocolError code details | .timeExpired code details
  | .interrupted _ code details | .noFileOrDirectory _ code details
  | .invalidArgument _ code details | .permissionDenied _ code details
  | .resourceExhausted _ code details | .inappropriateType _ code details
  | .noSuchThing _ code details =>
    details.capitalize ++ " (os error " ++ toString code.toInt32.toInt.natAbs ++ ")"
  | e => toString e

/-- The number that bytes write, the first one the most significant. -/
def bytesValue (bytes : ByteArray) : Nat :=
  bytes.toList.foldl (fun n byte => n * 256 + byte.toNat) 0

def millisecondsNow : IO Nat := do
  return (← Std.Time.Timestamp.now).toMillisecondsSinceUnixEpoch.val.toNat

def timeText : IO String := do
  let now ← Std.Time.Timestamp.now
  return (Std.Time.DateTime.ofTimestamp now Std.Time.TimeZone.ZoneRules.UTC).toISO8601String

def systemHost : Host IO where
  fetch path := do
    try
      return .ok (← IO.FS.readBinFile path)
    catch e => return .error (systemMessage e)
  clock := IO.monoMsNow
  newRunId := do
    return RunId.ofTime (← millisecondsNow) (bytesValue (← IO.getRandomBytes 10))
  log profile event := do
    match event.line? profile (← timeText) with
    | some line => IO.eprintln line
    | none => return ()

end ApiSurface

def main (arguments : List String) : IO UInt32 := do
  let conclusion ← ApiSurface.Command.run ApiSurface.systemHost arguments
  IO.print conclusion.output
  IO.eprint conclusion.complaint
  return conclusion.exitCode.toUInt32
