import ApiSurface.Json.Decode
import ApiSurface.Spec
import ApiSurface.Issue

/-!
The parts of a snapshot document. Only a type parameter must have a name; every other field may be
left out and then has the default of its spec. Types keep their text with all its blanks.
-/

namespace ApiSurface

open Json (Decoder)
open Json.Decode

namespace Decode

def typeRef : Decoder TypeRef := fun levels document => (text levels document).map TypeRef.mk

def typeParameter : Decoder TypeParameter := fun levels document => do
  let m ← closedRecord ["name", "bounds"] levels document
  let name ← m.required "name" text
  let bounds ← m.get "bounds" (list typeRef) []
  return { name, bounds }

def visibility : Decoder Visibility := named Visibility.ofName?

def nullability : Decoder Nullability := named Nullability.ofName?

def classKind : Decoder ClassKind := named ClassKind.ofName?

def modifiers : Decoder Modifiers := fun levels document => do
  let m ← closedRecord (["visibility"] ++ Facet.all.map Facet.keyword ++ ["nullability"]) levels
    document
  let visibility ← m.get "visibility" visibility .packageAccess
  let nullability ← m.get "nullability" (optional nullability) none
  Facet.all.foldlM (fun modifiers facet => do
      let present ← m.get facet.keyword bool false
      return modifiers.set facet present)
    { visibility, nullability : Modifiers }

def flagNames : List String := Flag.all.map Flag.name

def flagsOf (m : Members) : Option ItemFlags :=
  Flag.all.foldlM (fun flags flag => do
      let value ← m.get flag.name bool false
      return flags.set flag value)
    ({} : ItemFlags)

/-- The own flags of an item as a record of their own. -/
def flags : Decoder ItemFlags := fun levels document => do
  flagsOf (← closedRecord flagNames levels document)

def parameterSpec : Decoder ParameterSpec := fun levels document => do
  let m ← closedRecord ["name", "type", "modifiers", "has_default", "varargs"] levels document
  let name ← m.get "name" (optional text) none
  let type ← m.get "type" typeRef default
  let modifiers ← m.get "modifiers" modifiers {}
  let hasDefault ← m.get "has_default" bool false
  let isVarargs ← m.get "varargs" bool false
  return { name, type, modifiers, hasDefault, isVarargs }

def methodSpec : Decoder MethodSpec := fun levels document => do
  let m ← openRecord ["name", "modifiers", "stub", "return_type", "parameters", "throws",
    "type_parameters", "property", "annotation_default"] flagNames levels document
  let name ← m.get "name" text ""
  let modifiers ← m.get "modifiers" modifiers {}
  let flags ← flagsOf m
  let isStub ← m.get "stub" bool false
  let returnType ← m.get "return_type" (optional typeRef) none
  let parameters ← m.get "parameters" (list parameterSpec) []
  let throws ← m.get "throws" (list typeRef) []
  let typeParameters ← m.get "type_parameters" (list typeParameter) []
  let property ← m.get "property" (optional text) none
  let annotationDefault ← m.get "annotation_default" (optional text) none
  return { name, modifiers, flags, isStub, returnType, parameters, throws, typeParameters,
           property, annotationDefault }

def fieldSpec : Decoder FieldSpec := fun levels document => do
  let m ← openRecord ["name", "modifiers", "stub", "type", "value", "enum_constant"] flagNames levels
    document
  let name ← m.get "name" text ""
  let modifiers ← m.get "modifiers" modifiers {}
  let flags ← flagsOf m
  let isStub ← m.get "stub" bool false
  let type ← m.get "type" typeRef default
  let value ← m.get "value" (optional text) none
  let isEnumConstant ← m.get "enum_constant" bool false
  return { name, modifiers, flags, isStub, type, value, isEnumConstant }

/-- A class in which classes are nested at most `nesting` deep. -/
def classSpecWithin : Nat → Decoder ClassSpec
  | 0, _, _ => none
  | nesting + 1, levels, document => do
    let m ← openRecord ["name", "kind", "modifiers", "stub", "superclass", "interfaces",
      "type_parameters", "constructors", "methods", "fields", "nested"] flagNames levels document
    let name ← m.get "name" text ""
    let kind ← m.get "kind" classKind .classType
    let modifiers ← m.get "modifiers" modifiers {}
    let flags ← flagsOf m
    let isStub ← m.get "stub" bool false
    let superclass ← m.get "superclass" (optional typeRef) none
    let interfaces ← m.get "interfaces" (list typeRef) []
    let typeParameters ← m.get "type_parameters" (list typeParameter) []
    let constructors ← m.get "constructors" (list methodSpec) []
    let methods ← m.get "methods" (list methodSpec) []
    let fields ← m.get "fields" (list fieldSpec) []
    let nested ← m.get "nested" (list (classSpecWithin nesting)) []
    return { name, kind, modifiers, flags, isStub, superclass, interfaces, typeParameters,
             constructors, methods, fields, nested }

/-- A class. Every nested class takes levels of the document, so their limit is enough. -/
def classSpec : Decoder ClassSpec := classSpecWithin Json.depthLimit

def packageSpec : Decoder PackageSpec := fun levels document => do
  let m ← openRecord ["name", "stub", "classes"] flagNames levels document
  let name ← m.get "name" text ""
  let flags ← flagsOf m
  let isStub ← m.get "stub" bool false
  let classes ← m.get "classes" (list classSpec) []
  return { name, flags, isStub, classes }

def severity : Decoder Severity := named Severity.ofName?

def issueKind : Decoder IssueKind := named IssueKind.ofName?

def issue : Decoder Issue := fun levels document => do
  let m ← closedRecord ["kind", "severity", "subject", "message"] levels document
  let kind ← m.required "kind" issueKind
  let severity ← m.required "severity" severity
  let subject ← m.required "subject" text
  let message ← m.required "message" text
  return { kind, severity, subject, message }

end Decode

end ApiSurface
