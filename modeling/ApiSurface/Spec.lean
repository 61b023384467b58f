import ApiSurface.Item

/-!
Specs: what a package, a class or a member is to be, before it has a place in a surface. The fields of
a spec have the defaults that a document may leave out.
-/

namespace ApiSurface

structure ParameterSpec where
  /-- The name by which callers may pass the argument. -/
  name : Option String := none
  type : TypeRef := default
  modifiers : Modifiers := {}
  hasDefault : Bool := false
  /-- Whether the parameter takes any number of arguments. A final `...` of the type says so too. -/
  isVarargs : Bool := false
  deriving DecidableEq, Repr

/-- A method or a constructor to be declared. A constructor with an empty name takes the simple name
of its class, and its return type does not count. -/
structure MethodSpec where
  name : String := ""
  modifiers : Modifiers := {}
  flags : ItemFlags := {}
  isStub : Bool := false
  returnType : Option TypeRef := none
  parameters : List ParameterSpec := []
  throws : List TypeRef := []
  typeParameters : List TypeParameter := []
  property : Option String := none
  annotationDefault : Option String := none
  deriving DecidableEq, Repr

structure FieldSpec where
  name : String := ""
  modifiers : Modifiers := {}
  flags : ItemFlags := {}
  isStub : Bool := false
  type : TypeRef := default
  value : Option String := none
  isEnumConstant : Bool := false
  deriving DecidableEq, Repr

/-- A class to be declared, with its members and the classes nested in it. -/
structure ClassSpec where
  /-- The qualified name, of a nested class too. -/
  name : String := ""
  kind : ClassKind := .classType
  modifiers : Modifiers := {}
  flags : ItemFlags := {}
  isStub : Bool := false
  superclass : Option TypeRef := none
  interfaces : List TypeRef := []
  typeParameters : List TypeParameter := []
  constructors : List MethodSpec := []
  methods : List MethodSpec := []
  fields : List FieldSpec := []
  nested : List ClassSpec := []
  deriving Repr

structure PackageSpec where
  name : String := ""
  flags : ItemFlags := {}
  isStub : Bool := false
  classes : List ClassSpec := []
  deriving Repr

namespace MethodSpec

def published (name : String) : MethodSpec :=
  { name, modifiers := .ofVisibility .publicAccess }

end MethodSpec

namespace FieldSpec

def published (name : String) (type : TypeRef) : FieldSpec :=
  { name, type, modifiers := .ofVisibility .publicAccess }

end FieldSpec

end ApiSurface
