import ApiSurface.Text.Blank
import ApiSurface.Text.Alphanumeric

/-!
Type references. A type is kept as the text that names it, such as `java.util.List<T>`, `int[]` or
`java.lang.String...`, and every question about its structure is answered from that text. A surface
may therefore mention types that nobody can resolve.

The structural questions are about three layers of the text: generic arguments between angle
brackets, array levels written as `[]` or as one final `...`, and the base name that is left.
-/

namespace ApiSurface

structure TypeRef where
  text : String
  deriving DecidableEq, Repr

structure TypeParameter where
  name : String
  bounds : List TypeRef := []
  deriving DecidableEq, Repr

namespace TypeRef

/-- The erasure of a type variable without bounds, and the root of every class hierarchy. -/
def objectName : String := "java.lang.Object"

def trimmed (text : String) : TypeRef := ⟨Text.trimmed text⟩

instance : Inhabited TypeRef := ⟨⟨objectName⟩⟩

def primitives : List String :=
  ["boolean", "byte", "char", "short", "int", "long", "float", "double", "void"]

/-- The mark of a parameter that takes any number of arguments. -/
def ellipsis : List Char := ['.', '.', '.']

/-- The characters outside all angle brackets, when `depth` brackets are open. A closing bracket
that nothing opened is dropped. -/
def dropGenerics (depth : Nat) : List Char → List Char
  | [] => []
  | c :: rest =>
    if c = '<' then dropGenerics (depth + 1) rest
    else if c = '>' then dropGenerics (depth - 1) rest
    else if depth = 0 then c :: dropGenerics 0 rest
    else dropGenerics depth rest

/-- The text without its generic argument lists. -/
def stripGenerics (text : String) : String := String.ofList (dropGenerics 0 text.toList)

/-- The number of `[]` that end a text given backwards, blanks around them ignored. -/
def bracketPairs : List Char → Nat
  | ']' :: '[' :: rest => bracketPairs rest + 1
  | c :: rest => if Text.isBlank c then bracketPairs rest else 0
  | [] => 0

/-- The number of array levels of a text given backwards and without generic arguments. A final
`...` counts as one level. -/
def arrayLevels (backwards : List Char) : Nat :=
  match backwards.dropWhile Text.isBlank with
  | '.' :: '.' :: '.' :: rest => bracketPairs rest + 1
  | rest => bracketPairs rest

/-- The characters before a final `...`, or all of them. -/
def dropEllipsis (cs : List Char) : List Char :=
  if ellipsis.isSuffixOf cs then cs.take (cs.length - ellipsis.length) else cs

/-- Whether a character starts the generic arguments or the array suffix of a type. -/
def endsBase (c : Char) : Bool := c == '<' || c == '['

/-- The characters of the base name: those before the first angle or square bracket, without a final
`...` and without the blanks around them. -/
def baseChars (cs : List Char) : List Char :=
  Text.trim (dropEllipsis (cs.takeWhile fun c => !endsBase c))

/-- `base` as the element type of an array with the given number of levels. -/
def arrayOf (base : String) : Nat → String
  | 0 => base
  | levels + 1 => arrayOf base levels ++ "[]"

variable (t : TypeRef)

/-- The name of the type without generic arguments and array suffixes. -/
def baseName : String := String.ofList (baseChars t.text.toList)

def arrayDimensions : Nat := arrayLevels (dropGenerics 0 t.text.toList).reverse

/-- Whether the type is `int`, `boolean` or the like, and no array. -/
def isPrimitive : Bool := t.arrayDimensions == 0 && primitives.contains t.baseName

/-- Whether the text ends in `...`. -/
def isVarargs : Bool := ellipsis.isSuffixOf t.text.toList

/-- The text without generic arguments, with a final `...` written as an array level. -/
def erased : String := arrayOf t.baseName t.arrayDimensions

/-- The erasure of a type parameter: its first bound, erased. A parameter without bounds, or bounded
by itself, is erased to the root of the class hierarchy. -/
def parameterErasure (p : TypeParameter) : String :=
  match p.bounds.head? with
  | some bound => if bound.baseName = p.name then objectName else bound.erased
  | none => objectName

/-- The erasure of a type that is written where the type parameters `scope` are visible, the nearest
first. -/
def erasureIn (scope : List TypeParameter) : String :=
  match scope.find? fun p => p.name == t.baseName with
  | some p => arrayOf (parameterErasure p) t.arrayDimensions
  | none => t.erased

/-- Whether the text looks like a type variable that nobody resolved: one upper-case letter of
ASCII, and then nothing or a character that cannot continue a name. -/
def isUnresolvedVariable : Bool :=
  match t.text.toList with
  | [] => false
  | [c] => c.isUpper
  | c :: next :: _ => c.isUpper && !Text.isAlphanumeric next

/-- The canonical order: by base name, then by text. -/
def canonicalOrder (a b : TypeRef) : Ordering :=
  (compare a.baseName b.baseName).then (compare a.text b.text)

/-- The types in canonical order. Types that are equal in this order have the same text, so the
result does not depend on the order of the list. -/
def canonicalSort (types : List TypeRef) : List TypeRef :=
  types.mergeSort fun a b => (canonicalOrder a b).isLE

end TypeRef

end ApiSurface
