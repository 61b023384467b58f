/-!
Faults: what can go wrong while a surface is assembled or an input is loaded. A difference between
two surfaces is never a fault; it is an issue.

A `Fault` is a cause. A `Diagnostic` is its classification for programs and logs: a stable code, and
the context in which the fault arose.
-/

namespace ApiSurface

inductive Fault where
  /-- A class of this qualified name is already declared. -/
  | duplicateClass (name : String)
  /-- No item has this id. -/
  | itemNotFound (id : Nat)
  /-- The item with this id is not of the kind that the operation needs. -/
  | wrongItemKind (id : Nat) (expected found : String)
  /-- The name given to a thing of this sort cannot be used. -/
  | invalidName (sort reason : String)
  /-- The document read from this location is no snapshot, or describes an inconsistent surface. -/
  | invalidSnapshot (location message : String)
  /-- The text is no configuration, or names unknown settings. -/
  | invalidConfig (message : String)
  /-- The file at this path cannot be read. -/
  | fileAccess (path message : String)
  /-- The output cannot be encoded. -/
  | serialization (message : String)
  deriving DecidableEq, Repr

namespace Fault

def message : Fault → String
  | .duplicateClass name => "Duplicate class: " ++ name
  | .itemNotFound id => "Item not found: #" ++ toString id
  | .wrongItemKind id expected found =>
    "Item #" ++ toString id ++ " is a " ++ found ++ ", expected a " ++ expected
  | .invalidName sort reason => "Invalid name for " ++ sort ++ ": " ++ reason
  | .invalidSnapshot location message => "Invalid snapshot " ++ location ++ ": " ++ message
  | .invalidConfig message => "Invalid configuration: " ++ message
  | .fileAccess path message => "I/O error on " ++ path ++ ": " ++ message
  | .serialization message => "Serialization error: " ++ message

end Fault

inductive FaultClass where
  | invalidInput
  | notFound
  | alreadyExists
  | wrongItemKind
  | invalidSnapshot
  | invalidConfig
  | fileAccess
  | serialization
  deriving DecidableEq, Repr

namespace FaultClass

def name : FaultClass → String
  | .invalidInput => "InvalidInput"
  | .notFound => "NotFound"
  | .alreadyExists => "AlreadyExists"
  | .wrongItemKind => "WrongItemKind"
  | .invalidSnapshot => "InvalidSnapshot"
  | .invalidConfig => "InvalidConfig"
  | .fileAccess => "Io"
  | .serialization => "Serialization"

def code : FaultClass → String
  | .invalidInput => "ERR_INVALID_INPUT"
  | .notFound => "ERR_NOT_FOUND"
  | .alreadyExists => "ERR_ALREADY_EXISTS"
  | .wrongItemKind => "ERR_WRONG_ITEM_KIND"
  | .invalidSnapshot => "ERR_INVALID_SNAPSHOT"
  | .invalidConfig => "ERR_INVALID_CONFIG"
  | .fileAccess => "ERR_IO"
  | .serialization => "ERR_SERIALIZATION"

end FaultClass

/-- A classified failure with its context. -/
structure Diagnostic where
  kind : FaultClass
  /-- The operation that failed. -/
  operation : Option String := none
  /-- The item that the failure is about: a qualified name, or an id after a number sign. -/
  item : Option String := none
  path : Option String := none
  message : String := ""
  deriving DecidableEq, Repr

namespace Diagnostic

/-- The diagnostic in one line. Parts that are missing, and an empty message, leave no trace. -/
def render (d : Diagnostic) : String :=
  let operation := match d.operation with
    | some operation => " in operation '" ++ operation ++ "'"
    | none => ""
  let message := if d.message = "" then "" else ": " ++ d.message
  let item := match d.item with
    | some item => " (item: " ++ item ++ ")"
    | none => ""
  let path := match d.path with
    | some path => " (path: " ++ path ++ ")"
    | none => ""
  "[" ++ d.kind.code ++ "]" ++ operation ++ message ++ item ++ path

end Diagnostic

def Fault.diagnostic : Fault → Diagnostic
  | .duplicateClass name =>
    { kind := .alreadyExists, item := some name, message := "Class already exists" }
  | .itemNotFound id =>
    { kind := .notFound, item := some ("#" ++ toString id), message := "Item not found" }
  | .wrongItemKind id expected found =>
    { kind := .wrongItemKind
      item := some ("#" ++ toString id)
      message := "Expected a " ++ expected ++ ", found a " ++ found }
  | .invalidName sort reason =>
    { kind := .invalidInput, message := "Invalid name for " ++ sort ++ ": " ++ reason }
  | .invalidSnapshot location message =>
    { kind := .invalidSnapshot, path := some location, message }
  | .invalidConfig message => { kind := .invalidConfig, message }
  | .fileAccess path message => { kind := .fileAccess, path := some path, message }
  | .serialization message => { kind := .serialization, message }

end ApiSurface
