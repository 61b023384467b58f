import ApiSurface.Hierarchy

/-!
Members inherited from hidden superclasses. A class that is not hidden exposes what its hidden
superclasses declare, up to the first superclass that is not hidden. A surface lists such members as
copies in the class that exposes them, because users cannot see the class that declares them.
-/

namespace ApiSurface

/-- A member that a class exposes although a hidden superclass declares it. -/
structure InheritedCopy where
  /-- The class that exposes the member. -/
  owner : ItemId
  source : ItemId
  declaredIn : ItemId
  deriving DecidableEq, Repr

namespace Surface

/-- The items with interfaces and exceptions in canonical order. -/
def canonicalItem (item : Item) : Item :=
  { item with
    payload := match item.payload with
      | .ofClass info => .ofClass { info with interfaces := TypeRef.canonicalSort info.interfaces }
      | .method info => .method { info with throws := TypeRef.canonicalSort info.throws }
      | .constructor info => .constructor { info with throws := TypeRef.canonicalSort info.throws }
      | other => other }

/-- Whether a class can expose a member of a superclass: one that is not hidden itself, not static,
and visible beyond its package. -/
def isInheritable (member : Decl) : Bool :=
  !member.flags.hidden && !member.modifiers.isStatic && member.modifiers.visibility.isAccessible

/-- Whether the first of the methods that matches `method` says the same. -/
def isExposed (exposed : List Decl) (method : Decl) : Bool :=
  (exposed.find? fun e => e.signatureMatches method).any fun e => e.sameSignature method true

/-- The methods that a class comes to expose, when it exposes some already. -/
def newMethods (exposed : List Decl) : List Decl → List Decl
  | [] => []
  | method :: rest =>
    if isInheritable method && !isExposed exposed method then
      method :: newMethods (exposed ++ [method]) rest
    else newMethods exposed rest

/-- The fields that a class comes to expose, when it has some names already. -/
def newFields (names : List String) : List Decl → List Decl
  | [] => []
  | field :: rest =>
    if isInheritable field && !names.contains field.name then
      field :: newFields (names ++ [field.name]) rest
    else newFields names rest

/-- The copies that a class takes from hidden superclasses, the nearest first, when it exposes some
methods and field names already. -/
def copiesFrom (owner : Decl) (methods : List Decl) (fieldNames : List String) :
    List Decl → List InheritedCopy
  | [] => []
  | above :: rest =>
    let newMethods := newMethods methods above.methods
    let newFields := newFields fieldNames above.fields
    ((newMethods ++ newFields).map fun member =>
      { owner := owner.id, source := member.id, declaredIn := above.id }) ++
      copiesFrom owner (methods ++ newMethods) (fieldNames ++ newFields.map Decl.name) rest

/-- The hidden superclasses of a class that come before the first one that is not hidden. -/
def hiddenSuperclasses (s : Surface) (d : Decl) : List Decl :=
  (s.alone.superclassChain d).members.takeWhile fun above => above.isEffectively .hidden

/-- All copies that the classes of a surface take, class by class in the order of their names. -/
def inheritedCopies (s : Surface) : List InheritedCopy :=
  s.classDecls.flatMap fun d =>
    if d.isEffectively .hidden then []
    else copiesFrom d d.methods (d.fields.map Decl.name) (s.hiddenSuperclasses d)

/-- The items with copies of parameters added, for a method with the given id. -/
def copyParameters (method : ItemId) (items : Array Item) (parameters : List Item) : Array Item :=
  parameters.foldl
    (fun items p => items.push { p with parent := some method, rank := items.size }) items

def modifyClassItem (items : Array Item) (id : ItemId) (f : ClassInfo → ClassInfo) : Array Item :=
  items.modify id.index fun item =>
    match item.payload with
    | .ofClass info => { item with payload := .ofClass (f info) }
    | _ => item

/-- The items with one copy added. A method brings its parameters along. -/
def addCopy (items : Array Item) (copy : InheritedCopy) : Array Item :=
  match items[copy.source.index]? with
  | none => items
  | some source =>
    let id : ItemId := ⟨items.size⟩
    match source.payload with
    | .method info =>
      let parameters := info.parameters.filterMap fun p => items[p.index]?
      let info :=
        { info with
          inheritedFrom := some copy.declaredIn
          inheritedMethod := some copy.source
          isInherited := true
          overridden := []
          parameters := (List.range parameters.length).map fun i => ⟨items.size + 1 + i⟩ }
      let items := items.push
        { source with parent := some copy.owner, rank := items.size, payload := .method info }
      let items := copyParameters id items parameters
      modifyClassItem items copy.owner fun owner => { owner with methods := owner.methods ++ [id] }
    | .field info =>
      let info := { info with inheritedFrom := some copy.declaredIn, isInherited := true }
      let items := items.push
        { source with parent := some copy.owner, rank := items.size, payload := .field info }
      modifyClassItem items copy.owner fun owner => { owner with fields := owner.fields ++ [id] }
    | _ => items

/-- The surface with the members that its classes expose listed in them. -/
def withInheritedCopies (s : Surface) : Surface :=
  { s with items := s.inheritedCopies.foldl addCopy s.items }

end Surface

end ApiSurface
