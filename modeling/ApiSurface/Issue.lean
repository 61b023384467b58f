/-!
Issues: the incompatibilities that a check reports, and how severe each kind of them is.
-/

namespace ApiSurface

inductive Severity where
  /-- The check fails. -/
  | error
  | warning
  | info
  /-- The issue is not even recorded. -/
  | hidden
  deriving DecidableEq, Repr

namespace Severity

def label : Severity → String
  | .error => "error"
  | .warning => "warning"
  | .info => "info"
  | .hidden => "hidden"

def ofName? (name : String) : Option Severity :=
  [error, warning, info, hidden].find? fun severity => severity.label == name

end Severity

inductive IssueKind where
  | addedPackage
  | addedClass
  | addedMethod
  | addedAbstractMethod
  | addedField
  | addedInterface
  | addedFinal
  | addedFinalUninstantiable
  | removedPackage
  | removedClass
  | removedMethod
  | removedField
  | removedInterface
  | removedFinal
  | changedScope
  | changedAbstract
  | changedSuperclass
  | changedType
  | changedThrows
  | changedValue
  | changedStatic
  | changedClass
  | changedDefault
  | changedDeprecated
  | invalidNullConversion
  | parameterNameRemoved
  | parameterNameChange
  | defaultValueRemoved
  | varargRemoval
  deriving DecidableEq, Repr

namespace IssueKind

def all : List IssueKind :=
  [addedPackage, addedClass, addedMethod, addedAbstractMethod, addedField, addedInterface,
    addedFinal, addedFinalUninstantiable, removedPackage, removedClass, removedMethod,
    removedField, removedInterface, removedFinal, changedScope, changedAbstract,
    changedSuperclass, changedType, changedThrows, changedValue, changedStatic, changedClass,
    changedDefault, changedDeprecated, invalidNullConversion, parameterNameRemoved,
    parameterNameChange, defaultValueRemoved, varargRemoval]

/-- The name of a kind, in reports and as a key of configurations. -/
def name : IssueKind → String
  | .addedPackage => "AddedPackage"
  | .addedClass => "AddedClass"
  | .addedMethod => "AddedMethod"
  | .addedAbstractMethod => "AddedAbstractMethod"
  | .addedField => "AddedField"
  | .addedInterface => "AddedInterface"
  | .addedFinal => "AddedFinal"
  | .addedFinalUninstantiable => "AddedFinalUninstantiable"
  | .removedPackage => "RemovedPackage"
  | .removedClass => "RemovedClass"
  | .removedMethod => "RemovedMethod"
  | .removedField => "RemovedField"
  | .removedInterface => "RemovedInterface"
  | .removedFinal => "RemovedFinal"
  | .changedScope => "ChangedScope"
  | .changedAbstract => "ChangedAbstract"
  | .changedSuperclass => "ChangedSuperclass"
  | .changedType => "ChangedType"
  | .changedThrows => "ChangedThrows"
  | .changedValue => "ChangedValue"
  | .changedStatic => "ChangedStatic"
  | .changedClass => "ChangedClass"
  | .changedDefault => "ChangedDefault"
  | .changedDeprecated => "ChangedDeprecated"
  | .invalidNullConversion => "InvalidNullConversion"
  | .parameterNameRemoved => "ParameterNameRemoved"
  | .parameterNameChange => "ParameterNameChange"
  | .defaultValueRemoved => "DefaultValueRemoved"
  | .varargRemoval => "VarargRemoval"

def ofName? (name : String) : Option IssueKind := all.find? fun kind => kind.name == name

def unknownMessage (name : String) : String := "unknown issue kind '" ++ name ++ "'"

def defaultSeverity : IssueKind → Severity
  | .addedFinalUninstantiable => .info
  | .changedDeprecated => .warning
  | _ => .error

theorem mem_all (kind : IssueKind) : kind ∈ all := by cases kind <;> decide

theorem ofName?_name (kind : IssueKind) : ofName? kind.name = some kind := by
  cases kind <;> decide

end IssueKind

abbrev SeverityTable := IssueKind → Severity

namespace SeverityTable

def standard : SeverityTable := IssueKind.defaultSeverity

def set (table : SeverityTable) (kind : IssueKind) (severity : Severity) : SeverityTable :=
  fun k => if k = kind then severity else table k

/-- The standard table with some kinds changed, of several changes to one kind the last. -/
def withOverrides (overrides : List (IssueKind × Severity)) : SeverityTable :=
  overrides.foldl (fun table o => table.set o.1 o.2) standard

end SeverityTable

structure Issue where
  kind : IssueKind
  severity : Severity
  /-- The description of the declaration that the issue is about. -/
  subject : String
  message : String
  deriving DecidableEq, Repr

end ApiSurface
