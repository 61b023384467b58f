import ApiSurface.Surface

/-!
Descriptions. A declaration is described by its sort and its name, members with the class that
declares them and methods with the types of their parameters: `method p.C.m(int, java.lang.String)`.
Reports and messages speak of a declaration by its description only.
-/

namespace ApiSurface.Decl

variable (d : Decl)

def parameterList : String :=
  "(" ++ ", ".intercalate (d.parameterTypes.map (·.text)) ++ ")"

def ownerName : String :=
  ((d.containingClass?.bind asClass?).map (·.qualifiedName)).getD ""

/-- The signature of the method of a parameter: the class, the name unless it is a constructor, and
the types of the parameters. -/
def methodSignature (owner : String) (method : Decl) : String :=
  if method.isConstructor then owner ++ method.parameterList
  else owner ++ "." ++ method.name ++ method.parameterList

def describe : String :=
  match d.item.payload with
  | .package info => "package " ++ info.name
  | .ofClass info => info.kind.label ++ " " ++ info.qualifiedName
  | .method info => "method " ++ d.ownerName ++ "." ++ info.name ++ d.parameterList
  | .constructor _ => "constructor " ++ d.ownerName ++ d.parameterList
  | .field info => "field " ++ d.ownerName ++ "." ++ info.name
  | .parameter _ =>
    "parameter " ++ d.name ++ " in " ++
      ((d.containingMethod?.map (methodSignature d.ownerName)).getD "")

/-- The description with its first letter in upper case, as it starts a sentence. The first letter
is one of the fixed words above, so the upper case of ASCII is enough. -/
def title : String :=
  match d.describe.toList with
  | [] => ""
  | c :: rest => String.ofList (c.toUpper :: rest)

end ApiSurface.Decl
