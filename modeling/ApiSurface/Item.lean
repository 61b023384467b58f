import ApiSurface.TypeRef
import ApiSurface.Modifiers
import ApiSurface.Flags

/-!
The items of a surface: packages, classes, methods, constructors, fields and parameters. Items refer
to each other by id, so a surface holds them in one flat sequence.
-/

namespace ApiSurface

structure ItemId where
  index : Nat
  deriving DecidableEq, Repr, Inhabited

inductive ClassKind where
  | classType
  | interfaceType
  | enumType
  | annotationType
  deriving DecidableEq, Repr, Inhabited

namespace ClassKind

def label : ClassKind → String
  | .classType => "class"
  | .interfaceType => "interface"
  | .enumType => "enum"
  | .annotationType => "annotation"

def name : ClassKind → String
  | .annotationType => "annotation_type"
  | kind => kind.label

def ofName? (name : String) : Option ClassKind :=
  [classType, interfaceType, enumType, annotationType].find? fun kind => kind.name == name

/-- Whether members have no body unless they say so. -/
def isInterfaceLike : ClassKind → Bool
  | .interfaceType | .annotationType => true
  | .classType | .enumType => false

end ClassKind

structure PackageInfo where
  name : String
  /-- Every class of the package, nested ones too. -/
  classes : List ItemId := []
  deriving DecidableEq, Repr

structure ClassInfo where
  qualifiedName : String
  simpleName : String
  kind : ClassKind
  superclass : Option TypeRef
  /-- The interfaces that the class names itself, in canonical order once the surface is done. -/
  interfaces : List TypeRef
  typeParameters : List TypeParameter
  constructors : List ItemId := []
  methods : List ItemId := []
  fields : List ItemId := []
  nested : List ItemId := []
  package : ItemId
  /-- The class that this one is nested in. -/
  outer : Option ItemId
  deriving DecidableEq, Repr

/-- What a method or a constructor has beyond what every item has. -/
structure MethodInfo where
  name : String
  /-- Nothing for a constructor. -/
  returnType : Option TypeRef
  parameters : List ItemId := []
  /-- The exceptions, in canonical order once the surface is done. -/
  throws : List TypeRef
  typeParameters : List TypeParameter
  /-- The property that the method reads or writes. -/
  property : Option String
  /-- The class that declares the method, if this is a copy from a hidden superclass. -/
  inheritedFrom : Option ItemId := none
  /-- The method that this is a copy of. -/
  inheritedMethod : Option ItemId := none
  isInherited : Bool := false
  /-- The methods of the same surface that this one overrides directly. -/
  overridden : List ItemId := []
  /-- The default value of an annotation attribute. -/
  annotationDefault : Option String
  deriving DecidableEq, Repr

structure FieldInfo where
  name : String
  type : TypeRef
  value : Option String
  isEnumConstant : Bool
  /-- The class that declares the field, if this is a copy from a hidden superclass. -/
  inheritedFrom : Option ItemId := none
  isInherited : Bool := false
  deriving DecidableEq, Repr

structure ParameterInfo where
  /-- The name by which callers may pass the argument. Without it only the position counts. -/
  name : Option String
  type : TypeRef
  hasDefault : Bool
  isVarargs : Bool
  position : Nat
  deriving DecidableEq, Repr

/-- The part of an item that depends on what it is. -/
inductive Payload where
  | package (info : PackageInfo)
  | ofClass (info : ClassInfo)
  | method (info : MethodInfo)
  | constructor (info : MethodInfo)
  | field (info : FieldInfo)
  | parameter (info : ParameterInfo)
  deriving DecidableEq, Repr

namespace Payload

def label : Payload → String
  | .package _ => "package"
  | .ofClass _ => "class"
  | .method _ => "method"
  | .constructor _ => "constructor"
  | .field _ => "field"
  | .parameter _ => "parameter"

/-- The name that the payload carries: of a class the qualified one, of a parameter the external one
or else one made from its position. -/
def name : Payload → String
  | .package info => info.name
  | .ofClass info => info.qualifiedName
  | .method info | .constructor info => info.name
  | .field info => info.name
  | .parameter info => info.name.getD ("arg" ++ toString (info.position + 1))

end Payload

structure Item where
  /-- The item that this one is declared in. -/
  parent : Option ItemId
  /-- The place in the order in which the items were declared. -/
  rank : Nat
  modifiers : Modifiers
  flags : ItemFlags
  /-- Whether the item belongs to the surface. A stub, which is not emitted, only gives others
  something to refer to. -/
  isEmitted : Bool
  payload : Payload
  deriving DecidableEq, Repr

end ApiSurface
