import ApiSurface.Json.Basic

/-!
Looking into a document. Every question has an answer for every document, so a reader that does not
care about the form of what it skips need not tell the forms apart.
-/

namespace ApiSurface.Json

/-- The first member of this name, unless the document is no object that has one. -/
def member? (document : Json) (name : String) : Option Json :=
  match document with
  | .object members => (members.find? fun m => m.1 == some name).map Prod.snd
  | _ => none

/-- The member of this name, unless it is missing or `null`. -/
def given? (document : Json) (name : String) : Option Json :=
  match document.member? name with
  | some .null => none
  | value => value

def text? : Json → Option String
  | .string value => value
  | _ => none

def bool? : Json → Option Bool
  | .bool value => some value
  | _ => none

/-- The integer, if the document is a number without a fraction and an exponent. -/
def int? : Json → Option Int
  | .number literal => literal.toInt?
  | _ => none

/-- The elements of an array, none of any other document. -/
def elements : Json → List Json
  | .array values => values
  | _ => []

/-- The elements of the array that is the member of this name. -/
def elementsOf (document : Json) (name : String) : List Json :=
  ((document.given? name).map elements).getD []

/-- The object with further members at its end. Any other document stays as it is. -/
def extend (document : Json) (more : List (String × Json)) : Json :=
  match document with
  | .object members => .object (members ++ more.map fun (name, value) => (some name, value))
  | document => document

end ApiSurface.Json
