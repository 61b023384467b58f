/-!
TOML documents as values. Numbers, truth values and dates are kept as they are written, since nothing
here asks for more than that they are none of the other sorts.
-/

namespace ApiSurface

/-- A value of a TOML document. The document itself is a table. -/
inductive Toml where
  | text (value : String)
  /-- A number, a truth value, a date or a time. -/
  | scalar (literal : String)
  | array (elements : List Toml)
  | table (entries : List (String × Toml))

namespace Toml

/-- One line of a document with a meaning of its own. The keys on the way to a table come first, and
the last key is apart. -/
inductive Statement where
  /-- Gives a key of the open table a value. -/
  | assign (path : List String) (key : String) (value : Toml)
  /-- Opens a table. -/
  | openTable (path : List String) (key : String)
  /-- Opens one more element of an array of tables. -/
  | openElement (path : List String) (key : String)

/-- The levels of arrays and inline tables that a value may use, one of which is never entered. -/
def depthLimit : Nat := 80

/-- The keys that one path may have, since each of them is a level of tables. -/
def pathLimit : Nat := depthLimit - 1

end Toml

end ApiSurface
