import ApiSurface.View
import ApiSurface.Signature

/-!
The class hierarchy as a view shows it. Superclasses form a chain, interfaces a graph, and either may
be cyclic or lead to classes that the view does not know. Every walk therefore expands a class name at
most once, so it takes no more steps than the view has classes, and an answer that hangs on an unknown
class is left open.
-/

namespace ApiSurface

/-- The superclasses of a class, the nearest first. -/
structure SuperclassChain where
  members : List Decl
  /-- Whether nothing but a missing reference, the root of the hierarchy or a repeated name ended the
  chain. Otherwise an unknown class did, and the chain may be longer. -/
  isComplete : Bool

/-- An interface reference, with the class that it names if the view knows it. -/
structure InterfaceUse where
  type : TypeRef
  target : Option Decl

namespace Decl

def superclass? (d : Decl) : Option TypeRef := d.asClass?.bind (·.superclass)

def interfaces (d : Decl) : List TypeRef := (d.asClass?.map (·.interfaces)).getD []

end Decl

namespace View

variable (v : View)

/-- The superclasses above `current`, as far as their names are not `seen`. -/
def superclassesAbove : Nat → List String → Decl → SuperclassChain
  | 0, _, _ => ⟨[], true⟩
  | bound + 1, seen, current =>
    match current.superclass? with
    | none => ⟨[], true⟩
    | some type =>
      match v.resolve type with
      | none => ⟨[], type.baseName == TypeRef.objectName⟩
      | some above =>
        if seen.contains above.name then ⟨[], true⟩
        else
          let chain := superclassesAbove bound (above.name :: seen) above
          { chain with members := above :: chain.members }

/-- The superclasses of a class. -/
def superclassChain (d : Decl) : SuperclassChain :=
  v.superclassesAbove (v.classCount + 1) [d.name] d

def interfaceUses (d : Decl) : List InterfaceUse := d.interfaces.map fun t => ⟨t, v.resolve t⟩

/-- Adds the targets whose names were not seen before to a queue, and their names to the seen ones. -/
def enqueue (state : List String × List Decl) (use : InterfaceUse) : List String × List Decl :=
  match use.target with
  | none => state
  | some next =>
    if state.1.contains next.name then state else (next.name :: state.1, state.2 ++ [next])

/-- The interface references met on a walk in breadth that has the classes of `queue` before it. -/
def interfaceWalk : Nat → List String → List Decl → List InterfaceUse
  | 0, _, _ => []
  | _, _, [] => []
  | bound + 1, seen, current :: queue =>
    let uses := v.interfaceUses current
    let (seen, queue) := uses.foldl enqueue (seen, queue)
    uses ++ interfaceWalk bound seen queue

/-- The interface references of the classes `roots` and of all interfaces above them, in breadth,
those of each interface once. -/
def interfacesAbove (roots : List Decl) : List InterfaceUse :=
  v.interfaceWalk (roots.length + v.classCount + 1) [] roots

/-- The first hit among the supertypes of a class: superclasses, the nearest first, and then
interfaces in breadth. -/
def searchSupertypes (d : Decl) (superclasses interfaces : Bool) (search : Decl → Option Decl) :
    Option Decl :=
  let chain := if superclasses then (v.superclassChain d).members else []
  (chain.findSome? search).or
    (if interfaces then (v.interfacesAbove (d :: chain)).findSome? fun use => use.target.bind search
    else none)

/-- The method of a class, its superclasses or its interfaces that matches `probe` and is accepted.
Own methods come first. Constructors are not inherited, so a constructor is looked for among the own
ones only. -/
def findMethod? (d probe : Decl) (superclasses interfaces : Bool)
    (accept : Decl → Bool := fun _ => true) : Option Decl :=
  let isHit (candidate : Decl) : Bool := candidate.signatureMatches probe && accept candidate
  if probe.isConstructor then d.constructors.find? isHit
  else
    (d.methods.find? isHit).or
      (v.searchSupertypes d superclasses interfaces fun t => t.methods.find? isHit)

/-- The field of a class, its superclasses or its interfaces that has the name and is accepted. -/
def findField? (d : Decl) (name : String) (superclasses interfaces : Bool)
    (accept : Decl → Bool := fun _ => true) : Option Decl :=
  let isHit (candidate : Decl) : Bool :=
    (candidate.asField?.any fun info => info.name == name) && accept candidate
  (d.fields.find? isHit).or
    (v.searchSupertypes d superclasses interfaces fun t => t.fields.find? isHit)

/-- Whether a class above `current` is called `name`, as far as the names above are not `seen`. -/
def extendsAbove (name : String) : Nat → List String → Decl → Option Bool
  | 0, _, _ => some false
  | bound + 1, seen, current =>
    match current.superclass? with
    | none => some false
    | some type =>
      if type.baseName = name then some true
      else
        match v.resolve type with
        | none => none
        | some above =>
          if seen.contains above.name then some false
          else extendsAbove name bound (above.name :: seen) above

/-- Whether a class is the one called `name` or has it as a superclass. Nothing if the chain reaches
an unknown class before that is settled. -/
def extendsClass (d : Decl) (name : String) : Option Bool :=
  if name = TypeRef.objectName ∨ d.name = name then some true
  else v.extendsAbove name (v.classCount + 1) [d.name] d

/-- Whether a class, a superclass or an interface above them names the interface. Nothing if an
unknown class leaves that open. -/
def implementsInterface (d : Decl) (name : String) : Option Bool :=
  if name = TypeRef.objectName then some true
  else
    let chain := v.superclassChain d
    let uses := v.interfacesAbove (d :: chain.members)
    if uses.any fun use => use.type.baseName == name then some true
    else if chain.isComplete && uses.all fun use => use.target.isSome then some false
    else none

def extendsOrImplements (d : Decl) (name : String) : Option Bool :=
  match v.extendsClass d name, v.implementsInterface d name with
  | some true, _ | _, some true => some true
  | some false, some false => some false
  | _, _ => none

end View

end ApiSurface
