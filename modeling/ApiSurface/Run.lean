import ApiSurface.Text.Hex

/-!
Runs. Every check is a run with an id of its own, which ties what is logged of it to its report.
-/

namespace ApiSurface

structure RunId where
  text : String
  deriving DecidableEq, Repr

namespace RunId

/-- The id of a run that starts at a time: 48 bits for the milliseconds since 1970, then random bits,
except for those that mark the version and the variant of the form. Ids sort by time. -/
def ofTime (milliseconds random : Nat) : RunId :=
  let time := Text.hexDigits 12 milliseconds
  let spare := Text.hexDigits 18 random
  let variant := Text.hexDigit (8 + random / Nat.pow 16 18 % 4)
  let group (digits : List Char) : String := String.ofList digits
  ⟨group (time.take 8) ++ "-" ++ group (time.drop 8) ++ "-7" ++ group (spare.take 3) ++ "-" ++
    group (variant :: (spare.drop 3).take 3) ++ "-" ++ group (spare.drop 6)⟩

end RunId

/-- What is known of a run from its start on. -/
structure RunContext where
  runId : RunId
  oldLocation : String
  newLocation : String
  deriving DecidableEq, Repr

namespace RunContext

def withRunId (context : RunContext) (runId : RunId) : RunContext := { context with runId }

end RunContext

end ApiSurface
