import ApiSurface.Toml.Parser

/-!
Putting the lines of a TOML document together. Every table is defined once: by a header, by dots
between keys, or as a value. A table that was only passed through on the way to another one may still
be opened by a header, and a table made by dots may be extended by dots, but not the other way round.
-/

namespace ApiSurface.Toml

/-- A part of a document under construction. -/
inductive Node where
  | value (value : Toml)
  /-- A table. It is implicit until a header opens it, and dotted if dots between keys made it. -/
  | table (isImplicit isDotted : Bool) (entries : List (String × Node))
  /-- An array of tables. Its last element is the one that headers go on with. -/
  | tables (elements : List (List (String × Node)))

/-- The entries of a table under construction. -/
abbrev Entries := List (String × Node)

namespace Entries

def put (entries : Entries) (key : String) (node : Node) : Entries :=
  if entries.any fun e => e.1 == key then
    entries.map fun e => if e.1 == key then (key, node) else e
  else entries ++ [(key, node)]

def drop (entries : Entries) (key : String) : Entries := entries.filter fun e => e.1 != key

/-- Changes the table at the end of a path, which `change` is told to be dotted or not. Tables that
are missing on the way are made, dotted if the path is. Dots must not lead into a table that a header
opened, nor anything into a value. -/
def within (dotted : Bool) (change : Bool → Entries → Option Entries) :
    List String → Bool → Entries → Option Entries
  | [], isDotted, entries => change isDotted entries
  | key :: path, _, entries =>
    match entries.lookup key with
    | none => do
      let inner ← within dotted change path dotted []
      return put entries key (.table true dotted inner)
    | some (.value _) => none
    | some (.table isImplicit isDotted inner) =>
      if dotted && !isImplicit then none
      else do
        let inner ← within dotted change path isDotted inner
        return put entries key (.table isImplicit isDotted inner)
    | some (.tables elements) => do
      let inner ← within dotted change path false (elements.getLast?.getD [])
      return put entries key (.tables (elements.dropLast ++ [inner]))

/-- The table that a header may go on with under this key, and the entries without it. An implicit
table that no dots made is taken over; anything else there is a second definition. -/
def takeOver (entries : Entries) (key : String) : Option (Entries × Entries) :=
  match entries.lookup key with
  | none => some ([], entries)
  | some (.table true false inner) => some (inner, drop entries key)
  | some _ => none

end Entries

/-- A document under construction: the tables that are closed, and the open one. -/
structure Assembly where
  root : Entries := []
  /-- The entries of the open table. -/
  current : Entries := []
  /-- Where the open table goes: the path, the key, and whether it is an element of an array. Nothing
  while the open table is the document itself. -/
  place : Option (List String × String × Bool) := none

namespace Assembly

/-- The tables with the open one put into its place. -/
def close (a : Assembly) : Option Entries :=
  match a.place with
  | none => some a.current
  | some (path, key, true) =>
    Entries.within false (fun _ entries =>
      match entries.lookup key with
      | none => some (Entries.put entries key (.tables [a.current]))
      | some (.tables elements) =>
        some (Entries.put entries key (.tables (elements ++ [a.current])))
      | some _ => none) path false a.root
  | some (path, key, false) =>
    Entries.within false (fun _ entries =>
      some (Entries.put entries key (.table false false a.current))) path false a.root

def assign (a : Assembly) (path : List String) (key : String) (value : Toml) : Option Assembly := do
  let current ← Entries.within true (fun isDotted entries =>
    if isDotted == path.isEmpty then none
    else if entries.any fun e => e.1 == key then none
    else some (Entries.put entries key (.value value))) path false a.current
  return { a with current }

/-- The table at the end of a path, seen through tables and last elements. -/
def find? : List String → Entries → Option Entries
  | [], entries => some entries
  | key :: path, entries =>
    match entries.lookup key with
    | some (.table _ _ inner) => find? path inner
    | some (.tables elements) => find? path (elements.getLast?.getD [])
    | _ => none

/-- Closes the open table and opens the one that a header names. -/
def openTable (a : Assembly) (path : List String) (key : String) : Option Assembly := do
  let root ← a.close
  let current := ((find? path root).bind fun entries => entries.takeOver key).map Prod.fst
  let root ← Entries.within false (fun _ entries =>
    (entries.takeOver key).map Prod.snd) path false root
  return { root, current := current.getD [], place := some (path, key, false) }

/-- Closes the open table and opens a new element of an array of tables. -/
def openElement (a : Assembly) (path : List String) (key : String) : Option Assembly := do
  let root ← a.close
  let root ← Entries.within false (fun _ entries =>
    match entries.lookup key with
    | none => some (Entries.put entries key (.tables []))
    | some (.tables _) => some entries
    | some _ => none) path false root
  return { root, current := [], place := some (path, key, true) }

def follow (a : Assembly) : Statement → Option Assembly
  | .assign path key value => a.assign path key value
  | .openTable path key => a.openTable path key
  | .openElement path key => a.openElement path key

end Assembly

mutual
def Node.toToml : Node → Toml
  | .value value => value
  | .table _ _ entries => .table (entryValues entries)
  | .tables elements => .array (elementValues elements)

def entryValues : List (String × Node) → List (String × Toml)
  | [] => []
  | (key, node) :: rest => (key, node.toToml) :: entryValues rest

/-- The finished values of the elements of an array of tables. -/
def elementValues : List (List (String × Node)) → List Toml
  | [] => []
  | entries :: rest => .table (entryValues entries) :: elementValues rest
end

def parse? (text : String) : Option (List (String × Toml)) := do
  let statements ← Parser.statements? text
  let assembly ← statements.foldlM Assembly.follow {}
  return entryValues (← assembly.close)

end ApiSurface.Toml
