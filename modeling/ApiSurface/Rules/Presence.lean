import ApiSurface.Rules.Finding
import ApiSurface.Rules.Prescribed
import ApiSurface.Hierarchy

/-!
Rules on presence: what it means that a declaration was added or removed. An addition counts unless
users cannot notice it; a removal counts only if they could see the declaration and cannot reach it
through a supertype now.
-/

namespace ApiSurface.Rules

/-- The methods reached from those on the stack, one step after another along what they override, as
far as their ids are not `seen`. -/
def overriddenClosure : Nat → List ItemId → List Decl → List Decl
  | 0, _, _ => []
  | bound + 1, seen, stack =>
    match stack.dropWhile fun d => seen.contains d.id with
    | [] => []
    | current :: rest =>
      current :: overriddenClosure bound (current.id :: seen) (current.overridden.reverse ++ rest)

/-- Whether a method overrides, at some distance, one that is not emitted. Then the method was
callable before through a class outside the surface. No method is expanded twice, so the number of
items bounds the walk. -/
def overridesStub (method : Decl) : Bool :=
  (overriddenClosure (method.surface.size + 1) [] method.overridden.reverse).any fun above =>
    !above.isEmitted

namespace Presence

variable (context : RuleContext)

/-- The abstract method that users of the old surface had to implement already when they implemented
the class of `method`. -/
def inheritedObligation (owner method : Decl) : Option Decl :=
  ((context.oldView.findClass? owner.name).bind fun d =>
    context.oldView.findMethod? d method true true).filter fun found =>
      !found.isSame method && found.modifiers.isAbstract

/-- The kind of issue that an added method raises, if any. None is raised by a method that an old
partial surface left out, that overrides a method of a stub, that every enum has, that is an attribute
with a default value of a type nobody else implements, or that was an obligation before. -/
def addedMethodKind (method : Decl) : Option IssueKind :=
  match method.asMethod?, method.containingClass? with
  | some info, some owner =>
    if info.isInherited && context.oldView.primary.isPartial then none
    else if overridesStub method || isEnumAccessor method then none
    else if info.annotationDefault.isSome && owner.isClosed then none
    else if (inheritedObligation context owner method).isSome then none
    else if method.modifiers.isAbstract then some .addedAbstractMethod
    else some .addedMethod
  | _, _ => none

/-- The kind of issue that an added declaration raises, if any. -/
def addedKind (new : Decl) : Option IssueKind :=
  match new.item.payload with
  | .package _ => some .addedPackage
  | .ofClass _ => some .addedClass
  | .field _ => some .addedField
  | .constructor _ => some .addedMethod
  | .method _ => addedMethodKind context new
  | .parameter _ => none

/-- What is found about an added declaration. One that was hidden when it was declared is no
addition. -/
def added (new : Decl) : List Finding :=
  if new.flags.declaredHidden then []
  else
    match addedKind context new with
    | some kind => [{ kind, subject := new, message := "Added " ++ new.describe }]
    | none => []

/-- Whether the new class exposes the old member itself or through a supertype. -/
def isStillInherited (old : Decl) (place : Option Decl) : Bool :=
  match place with
  | none => false
  | some d =>
    match old.asField? with
    | some info => (context.newView.findField? d info.name true true context.filter).isSome
    | none => (context.newView.findMethod? d old true true context.filter).isSome

/-- The kind of issue that a removed declaration raises, if any. -/
def removedKind (old : Decl) (place : Option Decl) : Option IssueKind :=
  match old.item.payload with
  | .package _ => some .removedPackage
  | .ofClass _ => some .removedClass
  | .method _ | .constructor _ =>
    if isStillInherited context old place then none else some .removedMethod
  | .field _ => if isStillInherited context old place then none else some .removedField
  | .parameter _ => none

/-- What is found about a removed declaration. A stub, a declaration that the filter rejects and a
hidden one cannot be missed. -/
def removed (old : Decl) (place : Option Decl) : List Finding :=
  if !old.isEmitted || !context.filter old || old.isEffectively .hidden then []
  else
    match removedKind context old place with
    | some kind =>
      let verb := if old.isEffectively .deprecated then "Removed deprecated" else "Removed"
      [{ kind, subject := old, message := verb ++ " " ++ old.describe }]
    | none => []

end Presence

end ApiSurface.Rules
