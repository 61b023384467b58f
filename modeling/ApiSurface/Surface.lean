import Std.Data.TreeMap
import ApiSurface.Item
import ApiSurface.Fault

/-!
Surfaces. A surface is one version of the API of a library. Its items form a forest: every item but
a package names its parent, and parents come before their children. The structure of a surface is
fixed; only the own flags of its items may be changed afterwards.

A declaration is an item seen inside its surface. Everything that depends on the place of an item
(its effective flags, the type parameters visible at it, its description) is a function of the
declaration and is computed when asked, so it never goes stale.
-/

namespace ApiSurface

/-- One version of an API. -/
structure Surface where
  /-- Tells loaded surfaces apart, which may be equal in all else. -/
  serial : Nat := 0
  /-- Where the surface comes from, for people. -/
  location : String
  /-- Whether the surface comes from a format that leaves out inherited members and may leave type
  variables unresolved. -/
  isPartial : Bool
  items : Array Item
  /-- The packages by name, in the order of code points. -/
  packages : Std.TreeMap String ItemId
  /-- The classes by qualified name, in the order of code points. -/
  classes : Std.TreeMap String ItemId

/-- An item of a surface, together with the surface. -/
structure Decl where
  surface : Surface
  id : ItemId
  item : Item

namespace Surface

variable (s : Surface)

def size : Nat := s.items.size

def decl? (id : ItemId) : Option Decl :=
  s.items[id.index]?.map fun item => { surface := s, id, item }

def decls (ids : List ItemId) : List Decl := ids.filterMap s.decl?

/-- All declarations, by increasing id. -/
def allDecls : List Decl := s.decls ((List.range s.size).map ItemId.mk)

def findPackage? (name : String) : Option Decl := s.packages[name]?.bind s.decl?

def findClass? (name : String) : Option Decl := s.classes[name]?.bind s.decl?

def packageDecls : List Decl := s.decls s.packages.values

def classDecls : List Decl := s.decls s.classes.values

def setFlag (id : ItemId) (flag : Flag) (value : Bool) : Except Fault Surface :=
  if id.index < s.items.size then
    .ok { s with items := s.items.modify id.index fun item =>
      { item with flags := item.flags.set flag value } }
  else .error (.itemNotFound id.index)

end Surface

namespace Decl

/-- The walk from `d` along `next`, `d` first, of at most `bound` declarations. -/
def walk (next : Decl → Option Decl) : Nat → Decl → List Decl
  | 0, _ => []
  | bound + 1, d =>
    d :: match next d with
      | some d' => walk next bound d'
      | none => []

variable (d : Decl)

/-- Whether two declarations are the same item of the same loaded surface. -/
def isSame (other : Decl) : Bool := d.surface.serial == other.surface.serial && d.id == other.id

def modifiers : Modifiers := d.item.modifiers

def flags : ItemFlags := d.item.flags

/-- Whether the item belongs to the surface and is no stub. -/
def isEmitted : Bool := d.item.isEmitted

def asPackage? : Option PackageInfo :=
  match d.item.payload with
  | .package info => some info
  | _ => none

def asClass? : Option ClassInfo :=
  match d.item.payload with
  | .ofClass info => some info
  | _ => none

def asMethod? : Option MethodInfo :=
  match d.item.payload with
  | .method info | .constructor info => some info
  | _ => none

def asField? : Option FieldInfo :=
  match d.item.payload with
  | .field info => some info
  | _ => none

def asParameter? : Option ParameterInfo :=
  match d.item.payload with
  | .parameter info => some info
  | _ => none

def isConstructor : Bool :=
  match d.item.payload with
  | .constructor _ => true
  | _ => false

def classKind? : Option ClassKind := d.asClass?.map (·.kind)

/-- Whether no subtype can be declared elsewhere: so of annotation types and of what is sealed. -/
def isClosed : Bool := d.classKind? == some .annotationType || d.modifiers.isSealed

/-- The name: of a package, a class by its qualified name, a member or a parameter. -/
def name : String := d.item.payload.name

def parent? : Option Decl := d.item.parent.bind d.surface.decl?

/-- The declaration and all that it is declared in, from the inside out. An id bounds the length,
because a parent comes before its children. -/
def lineage : List Decl := walk parent? (d.id.index + 1) d

/-- The class that declares a member, that a nested class is nested in, or that declares the method
of a parameter. -/
def containingClass? : Option Decl :=
  match d.item.payload with
  | .package _ => none
  | .ofClass info => info.outer.bind d.surface.decl?
  | .method _ | .constructor _ | .field _ => d.parent?
  | .parameter _ => d.parent?.bind parent?

/-- The declaration and the classes around it, from the inside out. -/
def selfAndClasses : List Decl := walk containingClass? (d.id.index + 1) d

/-- The classes around the declaration, from the inside out. -/
def enclosingClasses : List Decl := d.selfAndClasses.tail

def containingMethod? : Option Decl :=
  match d.item.payload with
  | .parameter _ => d.parent?
  | _ => none

/-- Whether the flag holds for the item: it is its own, or that of something it is declared in. -/
def isEffectively (flag : Flag) : Bool := d.lineage.any fun a => a.flags.get flag

/-- The classes of a package, nested ones too. -/
def classes : List Decl := (d.asPackage?.map fun info => d.surface.decls info.classes).getD []

def constructors : List Decl :=
  (d.asClass?.map fun info => d.surface.decls info.constructors).getD []

def methods : List Decl := (d.asClass?.map fun info => d.surface.decls info.methods).getD []

def fields : List Decl := (d.asClass?.map fun info => d.surface.decls info.fields).getD []

def parameters : List Decl := (d.asMethod?.map fun info => d.surface.decls info.parameters).getD []

def overridden : List Decl := (d.asMethod?.map fun info => d.surface.decls info.overridden).getD []

def parameterTypes : List TypeRef := d.parameters.filterMap fun p => p.asParameter?.map (·.type)

def ownTypeParameters : List TypeParameter :=
  match d.item.payload with
  | .ofClass info => info.typeParameters
  | .method info | .constructor info => info.typeParameters
  | _ => []

/-- The type parameters visible at the declaration: its own, those of the method of a parameter, and
those of the classes around it, from the inside out. -/
def typeScope : List TypeParameter :=
  d.ownTypeParameters ++ (d.containingMethod?.map ownTypeParameters).getD [] ++
    d.enclosingClasses.flatMap ownTypeParameters

end Decl

end ApiSurface
