import Std.Data.TreeMap
import ApiSurface.Spec
import ApiSurface.Fault
import ApiSurface.Text.Blank

/-!
Drafts: surfaces under construction. Items are appended one by one, a parent before its children, and
each takes the next free id and the next rank. An addition that fails part of the way keeps what was
added before the fault, and nothing of what comes after it.
-/

namespace ApiSurface

/-- A surface under construction. -/
structure Draft where
  location : String
  isPartial : Bool := false
  items : Array Item := #[]
  packages : Std.TreeMap String ItemId := ∅
  classes : Std.TreeMap String ItemId := ∅

/-- An addition to a draft. It may fail, and what it did before it failed stays. -/
abbrev Addition := ExceptT Fault (StateM Draft)

namespace Draft

def nextId (d : Draft) : ItemId := ⟨d.items.size⟩

def push (d : Draft) (parent : Option ItemId) (modifiers : Modifiers) (flags : ItemFlags)
    (isEmitted : Bool) (payload : Payload) : Draft :=
  { d with
    items := d.items.push
      { parent, rank := d.items.size, modifiers, flags := flags.declared, isEmitted, payload } }

def modifyPayload (d : Draft) (id : ItemId) (f : Payload → Payload) : Draft :=
  { d with items := d.items.modify id.index fun item => { item with payload := f item.payload } }

def modifyClass (d : Draft) (id : ItemId) (f : ClassInfo → ClassInfo) : Draft :=
  d.modifyPayload id fun
    | .ofClass info => .ofClass (f info)
    | other => other

def listInPackage (d : Draft) (package classId : ItemId) : Draft :=
  d.modifyPayload package fun
    | .package info => .package { info with classes := info.classes ++ [classId] }
    | other => other

def classInfo (d : Draft) (id : ItemId) : Except Fault ClassInfo :=
  match d.items[id.index]? with
  | none => .error (.itemNotFound id.index)
  | some item =>
    match item.payload with
    | .ofClass info => .ok info
    | other => .error (.wrongItemKind id.index "class" other.label)

def packageInfo (d : Draft) (id : ItemId) : Except Fault PackageInfo :=
  match d.items[id.index]? with
  | none => .error (.itemNotFound id.index)
  | some item =>
    match item.payload with
    | .package info => .ok info
    | other => .error (.wrongItemKind id.index "package" other.label)

def simpleName (qualifiedName : String) : String :=
  String.ofList (qualifiedName.toList.reverse.takeWhile (· != '.')).reverse

/-- The class that a spec describes, still without members. -/
def emptyClass (package : ItemId) (outer : Option ItemId) (spec : ClassSpec) : ClassInfo :=
  { qualifiedName := Text.trimmed spec.name
    simpleName := simpleName (Text.trimmed spec.name)
    kind := spec.kind
    superclass := spec.superclass
    interfaces := spec.interfaces
    typeParameters := spec.typeParameters
    package
    outer }

/-- The draft with one more class, still without members. -/
def pushClass (d : Draft) (package : ItemId) (outer : Option ItemId) (spec : ClassSpec) : Draft :=
  let id := d.nextId
  let d := d.push (some (outer.getD package)) spec.modifiers spec.flags (!spec.isStub)
    (.ofClass (emptyClass package outer spec))
  let d := { d with classes := d.classes.insert (Text.trimmed spec.name) id }
  let d := d.listInPackage package id
  match outer with
  | none => d
  | some outer => d.modifyClass outer fun info => { info with nested := info.nested ++ [id] }

/-- The draft with parameters added for a method, from the given position on. -/
def pushParameters (d : Draft) (method : ItemId) : Nat → List ParameterSpec → Draft
  | _, [] => d
  | position, spec :: rest =>
    (d.push (some method) spec.modifiers {} true
      (.parameter
        { name := spec.name
          type := spec.type
          hasDefault := spec.hasDefault
          isVarargs := spec.isVarargs || spec.type.isVarargs
          position })).pushParameters method (position + 1) rest

/-- The draft with one more method or constructor of a class, and its parameters after it. -/
def pushMethod (d : Draft) (owner : ItemId) (ownerInfo : ClassInfo) (isConstructor : Bool)
    (spec : MethodSpec) : Draft :=
  let id := d.nextId
  let info : MethodInfo :=
    { name := if isConstructor && spec.name == "" then ownerInfo.simpleName else spec.name
      returnType := if isConstructor then none else spec.returnType
      parameters := (List.range spec.parameters.length).map fun i => ⟨id.index + 1 + i⟩
      throws := spec.throws
      typeParameters := spec.typeParameters
      property := spec.property
      annotationDefault := spec.annotationDefault }
  let payload : Payload := if isConstructor then .constructor info else .method info
  let d := d.push (some owner) spec.modifiers spec.flags (!spec.isStub) payload
  let d := d.pushParameters id 0 spec.parameters
  d.modifyClass owner fun info =>
    if isConstructor then { info with constructors := info.constructors ++ [id] }
    else { info with methods := info.methods ++ [id] }

def pushField (d : Draft) (owner : ItemId) (spec : FieldSpec) : Draft :=
  let id := d.nextId
  let d := d.push (some owner) spec.modifiers spec.flags (!spec.isStub)
    (.field
      { name := spec.name
        type := spec.type
        value := spec.value
        isEnumConstant := spec.isEnumConstant })
  d.modifyClass owner fun info => { info with fields := info.fields ++ [id] }

end Draft

namespace Addition

/-- Fails unless the name has a character that is not blank. -/
def requireName (sort reason name : String) : Addition Unit :=
  if Text.isAllBlank name then throw (.invalidName sort reason) else pure ()

/-- Adds a package with these own flags, or finds the one of this name, whose flags stay as they
are. -/
def package (name : String) (flags : ItemFlags := {}) (isStub : Bool := false) :
    Addition ItemId := do
  requireName "package" "name is empty" name
  let d ← get
  match d.packages[name]? with
  | some id => return id
  | none =>
    let id := d.nextId
    modify fun d =>
      let d := d.push none (.ofVisibility .publicAccess) flags (!isStub) (.package { name })
      { d with packages := d.packages.insert name id }
    return id

def constructor (owner : ItemId) (spec : MethodSpec) : Addition ItemId := do
  let d ← get
  let info ← (d.classInfo owner : Except Fault ClassInfo)
  let id := d.nextId
  modify fun d => d.pushMethod owner info true spec
  return id

def method (owner : ItemId) (spec : MethodSpec) : Addition ItemId := do
  requireName "method" "name is empty" spec.name
  let d ← get
  let info ← (d.classInfo owner : Except Fault ClassInfo)
  let id := d.nextId
  modify fun d => d.pushMethod owner info false spec
  return id

def field (owner : ItemId) (spec : FieldSpec) : Addition ItemId := do
  requireName "field" "name is empty" spec.name
  let d ← get
  let _ ← (d.classInfo owner : Except Fault ClassInfo)
  let id := d.nextId
  modify fun d => d.pushField owner spec
  return id

/-- Adds a class without members to a package, inside `outer` if there is one. -/
def classHead (package : ItemId) (outer : Option ItemId) (spec : ClassSpec) : Addition ItemId := do
  requireName "class" "qualified name is empty" spec.name
  let d ← get
  if d.classes.contains (Text.trimmed spec.name) then
    throw (.duplicateClass (Text.trimmed spec.name))
  let id := d.nextId
  modify fun d => d.pushClass package outer spec
  return id

/-- Does one addition for each of the specs, in order. -/
def each {α : Type} (add : α → Addition ItemId) : List α → Addition Unit
  | [] => pure ()
  | spec :: rest => do
    let _ ← add spec
    each add rest

mutual
/-- Adds a class to a package, inside `outer` if there is one: first the class, then its constructors,
methods, fields and nested classes. -/
def classIn (package : ItemId) (outer : Option ItemId) (spec : ClassSpec) : Addition ItemId := do
  let id ← classHead package outer spec
  each (constructor id) spec.constructors
  each (method id) spec.methods
  each (field id) spec.fields
  match spec with
  | ⟨_, _, _, _, _, _, _, _, _, _, _, nested⟩ => classesIn package id nested
  return id

def classesIn (package outer : ItemId) : List ClassSpec → Addition Unit
  | [] => pure ()
  | spec :: rest => do
    let _ ← classIn package (some outer) spec
    classesIn package outer rest
end

/-- Adds a class to a package, with its members and nested classes. -/
def topLevelClass (package : ItemId) (spec : ClassSpec) : Addition ItemId := do
  let d ← get
  let _ ← (d.packageInfo package : Except Fault PackageInfo)
  classIn package none spec

/-- Adds a class inside another one, to the package of that. -/
def nestedClass (outer : ItemId) (spec : ClassSpec) : Addition ItemId := do
  let d ← get
  let info ← (d.classInfo outer : Except Fault ClassInfo)
  classIn info.package (some outer) spec

def packageSpec (spec : PackageSpec) : Addition ItemId := do
  let id ← package spec.name spec.flags spec.isStub
  each (topLevelClass id) spec.classes
  return id

end Addition

/-- Runs an addition: its result, and the draft that it leaves. -/
def Draft.add {α : Type} (d : Draft) (addition : Addition α) : Except Fault α × Draft :=
  addition.run.run d

end ApiSurface
