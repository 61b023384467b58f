import ApiSurface.Decimal
import ApiSurface.Json.Basic

/-!
Decoding JSON into values of other types. Nothing is converted: a number is no text, and `null` stands
only for an optional value that is missing.

Records come in two forms. A closed record is an object, of which unknown members are skipped
unseen, or an array of its fields in order, of which the last ones may be missing. An open record is an
object whose unknown members are kept aside for a reader that may want them, so they have to be values
that can be kept. Either way a known member must not come twice.

A document must not be nested deeper than a reader can follow. Every array and object on the way down
takes one level, except inside what is skipped unseen.
-/

namespace ApiSurface.Json

/-- The levels that a document may use, one of which is never entered. -/
def depthLimit : Nat := 128

/-- A reader of documents that may still use some levels. -/
abbrev Decoder (α : Type) := Nat → Json → Option α

/-- The levels left inside an array or object. -/
def enter? (levels : Nat) : Option Nat := if levels ≤ 1 then none else some (levels - 1)

mutual
/-- Whether a document can be kept as a value: it is not too deep, its strings are text and its numbers,
put together from their parts, are finite. -/
def isStorable (levels : Nat) : Json → Bool
  | .null | .bool _ => true
  | .number literal => (Decimal.ofChars literal.toList).isFiniteByParts
  | .string value => value.isSome
  | .array elements => decide (1 < levels) && areStorable (levels - 1) elements
  | .object members => decide (1 < levels) && areStorableMembers (levels - 1) members

def areStorable (levels : Nat) : List Json → Bool
  | [] => true
  | value :: rest => isStorable levels value && areStorable levels rest

def areStorableMembers (levels : Nat) : List (Option String × Json) → Bool
  | [] => true
  | (name, value) :: rest =>
    name.isSome && isStorable levels value && areStorableMembers levels rest
end

namespace Decode

def text : Decoder String
  | _, .string value => value
  | _, _ => none

def bool : Decoder Bool
  | _, .bool value => some value
  | _, _ => none

def optional {α : Type} (decode : Decoder α) : Decoder (Option α)
  | _, .null => some none
  | levels, document => (decode levels document).map some

def list {α : Type} (decode : Decoder α) : Decoder (List α)
  | levels, .array elements => do
    let levels ← enter? levels
    elements.mapM (decode levels)
  | _, _ => none

/-- One of finitely many values by its name, which may also be written as the only member of an object
with the value `null`. -/
def named {α : Type} (ofName? : String → Option α) : Decoder α
  | _, .string value => value.bind ofName?
  | levels, .object [(some name, .null)] => do
    let _ ← enter? levels
    ofName? name
  | _, _ => none

/-- The members of a record that are known, with the levels left for their values. -/
structure Members where
  levels : Nat
  values : List (String × Json)

/-- The known ones among the members of an object, unless one of them comes twice or a name is no
text. -/
def known? (names : List String) (members : List (Option String × Json)) :
    Option (List (String × Json)) := do
  let members ← members.mapM fun (name, value) => name.map fun name => (name, value)
  let values := members.filter fun (name, _) => names.contains name
  if (values.map Prod.fst).eraseDups.length = values.length then some values else none

def closedRecord (names : List String) : Decoder Members
  | levels, .array elements => do
    let levels ← enter? levels
    if elements.length ≤ names.length then some ⟨levels, names.zip elements⟩ else none
  | levels, .object members => do
    let levels ← enter? levels
    return ⟨levels, ← known? names members⟩
  | _, _ => none

/-- The members of an open record with these fields. Those called `kept` are set aside like unknown
ones, though they are known. -/
def openRecord (names kept : List String) : Decoder Members
  | levels, .object members => do
    let levels ← enter? levels
    let values ← known? (names ++ kept) members
    if members.all fun (name, value) =>
        (name.any fun name => names.contains name) || isStorable levels value then
      some ⟨levels, values⟩
    else none
  | _, _ => none

namespace Members

def required {α : Type} (m : Members) (name : String) (decode : Decoder α) : Option α :=
  (m.values.lookup name).bind (decode m.levels)

/-- The value of a field, or `missing` if the field is not there. -/
def get {α : Type} (m : Members) (name : String) (decode : Decoder α) (missing : α) : Option α :=
  match m.values.lookup name with
  | some value => decode m.levels value
  | none => some missing

end Members

end Decode

end ApiSurface.Json
