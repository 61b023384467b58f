import ApiSurface.Toml.Document
import ApiSurface.Log

/-!
Configurations of a check: severities of kinds of issues, and the profile of logging. A configuration
that has settings nobody knows is refused as a whole.
-/

namespace ApiSurface

structure Config where
  /-- The severities that are not the standard ones, in the order of the kinds. -/
  overrides : List (IssueKind × Severity) := []
  profile : Option LogProfile := none
  deriving DecidableEq, Repr

inductive ConfigFailure where
  /-- The text is no configuration document. -/
  | undecodable
  /-- A severity is given to something that is no kind of issue. -/
  | unknownKind (name : String)
  deriving DecidableEq, Repr

namespace ConfigFailure

def fault : ConfigFailure → Fault
  | .undecodable => .invalidConfig "failed to parse config: the text is no configuration document"
  | .unknownKind name => .invalidConfig (IssueKind.unknownMessage name)

end ConfigFailure

namespace Config

/-- The name of one of several alternatives. It is a text, or the only key of a table with nothing in
it. -/
def choice? : Toml → Option String
  | .text name => some name
  | .table [(name, .array [])] | .table [(name, .table [])] => some name
  | _ => none

/-- The settings of kinds by the names that the document gives. -/
def severities? : Toml → Option (List (String × Severity))
  | .table entries => entries.mapM fun (name, value) => do
    let severity ← (choice? value).bind Severity.ofName?
    return (name, severity)
  | _ => none

def profile? (value : Toml) : Option LogProfile := (choice? value).bind LogProfile.ofName?

/-- The settings of logging. In place of a table there may be an array that starts with the value of
the only key. -/
def logging? : Toml → Option (Option LogProfile)
  | .table [] => some none
  | .table [("profile", value)] => (profile? value).map some
  | .array (value :: _) => (profile? value).map some
  | _ => none

/-- The configuration with these settings of kinds. Of several names that no kind has, the first in
the order of code points is reported. -/
def withSeverities (profile : Option LogProfile) (settings : List (String × Severity)) :
    Except ConfigFailure Config :=
  let unknown := (settings.map Prod.fst).filter fun name => (IssueKind.ofName? name).isNone
  match (unknown.mergeSort fun a b => decide (a ≤ b)).head? with
  | some name => .error (.unknownKind name)
  | none =>
    .ok
      { overrides := IssueKind.all.filterMap fun (kind : IssueKind) =>
          (settings.lookup kind.name).map fun severity => (kind, severity)
        profile }

def ofToml (entries : List (String × Toml)) : Except ConfigFailure Config :=
  if entries.all fun e => e.1 == "severity" || e.1 == "logging" then
    match severities? ((entries.lookup "severity").getD (.table [])),
        logging? ((entries.lookup "logging").getD (.table [])) with
    | some settings, some profile => withSeverities profile settings
    | _, _ => .error .undecodable
  else .error .undecodable

def parse (text : String) : Except ConfigFailure Config :=
  match Toml.parse? text with
  | some entries => ofToml entries
  | none => .error .undecodable

def severities (config : Config) : SeverityTable := .withOverrides config.overrides

end Config

end ApiSurface
