/-!
JSON documents as values. Members of an object keep their order and their repetitions, because a
reader may have to refuse a name that comes twice. A number is kept as it is written.
-/

namespace ApiSurface

inductive Json where
  | null
  | bool (value : Bool)
  | number (literal : String)
  /-- A string. It has no value if its escapes leave one half of a surrogate pair alone, which the
  grammar allows although no text corresponds to it. -/
  | string (value : Option String)
  | array (elements : List Json)
  | object (members : List (Option String × Json))

namespace Json

def text (value : String) : Json := .string (some value)

def ofInt (value : Int) : Json := .number (toString value)

def record (members : List (String × Json)) : Json :=
  .object (members.map fun (name, value) => (some name, value))

end Json

end ApiSurface
