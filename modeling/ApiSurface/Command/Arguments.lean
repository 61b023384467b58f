/-!
Arguments of the command line. They are read from left to right, and the first word that asks for help
or cannot be accepted decides. An option's value follows it as the next word or after an equals sign,
is not empty, and looks like no option itself unless it comes after an equals sign.
-/

namespace ApiSurface

inductive ReportFormat where
  | text
  | json
  deriving DecidableEq, Repr

namespace ReportFormat

def ofName? : String → Option ReportFormat
  | "text" => some text
  | "json" => some json
  | _ => none

end ReportFormat

/-- A request to check one snapshot file against another one. -/
structure CheckRequest where
  old : String
  new : String
  /-- Snapshots asked for the classes that both sides lack. -/
  baselines : List String
  config : Option String
  format : ReportFormat
  /-- Whether private and hidden members count. -/
  allMembers : Bool
  deriving DecidableEq, Repr

inductive Command where
  | check (request : CheckRequest)
  | help
  /-- Nothing that can be done. -/
  | misuse
  deriving DecidableEq, Repr

namespace Command

/-- The options of a check as far as they have been read. -/
structure Options where
  old : Option String := none
  new : Option String := none
  baselines : List String := []
  config : Option String := none
  format : Option ReportFormat := none
  allMembers : Bool := false
  deriving DecidableEq, Repr

namespace Options

/-- Gives an option its value. All options but baselines are given once at most. -/
def set? (o : Options) (name value : String) : Option Options :=
  if value.isEmpty then none
  else
    match name with
    | "old" => if o.old.isSome then none else some { o with old := some value }
    | "new" => if o.new.isSome then none else some { o with new := some value }
    | "baseline" => some { o with baselines := o.baselines ++ [value] }
    | "config" => if o.config.isSome then none else some { o with config := some value }
    | "format" =>
      if o.format.isSome then none
      else (ReportFormat.ofName? value).map fun format => { o with format := some format }
    | _ => none

/-- Gives the switch that makes all members count. -/
def switch? (o : Options) : Option Options :=
  if o.allMembers then none else some { o with allMembers := true }

def command (o : Options) : Command :=
  match o.old, o.new with
  | some old, some new =>
    .check
      { old, new, baselines := o.baselines, config := o.config
        format := o.format.getD .text, allMembers := o.allMembers }
  | _, _ => .misuse

end Options

inductive Word where
  /-- A long option without a value of its own. -/
  | option (name : String)
  /-- A long option with a value after an equals sign. -/
  | assignment (name value : String)
  /-- A group of short options. -/
  | letters (letters : List Char)
  /-- The mark after which no option follows. -/
  | endOfOptions
  | plain
  deriving DecidableEq, Repr

/-- What a word is. A hyphen alone is a plain word. -/
def Word.ofString (word : String) : Word :=
  match word.toList with
  | ['-', '-'] => .endOfOptions
  | '-' :: '-' :: body =>
    let name := String.ofList (body.takeWhile (· != '='))
    match body.dropWhile (· != '=') with
    | [] => .option name
    | _ :: value => .assignment name (String.ofList value)
  | '-' :: first :: more => .letters (first :: more)
  | _ => .plain

def ofOptions (o : Options) : List String → Command
  | [] => o.command
  | word :: rest =>
    match Word.ofString word with
    | .letters ('h' :: _) => .help
    | .letters _ | .plain => .misuse
    | .endOfOptions => if rest.isEmpty then o.command else .misuse
    | .assignment name value =>
      match o.set? name value with
      | some o => ofOptions o rest
      | none => .misuse
    | .option "help" => .help
    | .option "all-members" =>
      match o.switch? with
      | some o => ofOptions o rest
      | none => .misuse
    | .option name =>
      match rest with
      | [] => .misuse
      | value :: rest =>
        if Word.ofString value = .plain then
          match o.set? name value with
          | some o => ofOptions o rest
          | none => .misuse
        else .misuse

def parse : List String → Command
  | [] => .misuse
  | "check" :: rest => ofOptions {} rest
  | "help" :: rest =>
    match rest with
    | [] | ["check"] | ["help"] => .help
    | _ => .misuse
  | word :: _ =>
    match Word.ofString word with
    | .letters ('h' :: _) | .option "help" => .help
    | _ => .misuse

end Command

end ApiSurface
