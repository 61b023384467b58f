import ApiSurface.Rules.Finding
import ApiSurface.Rules.Prescribed
import ApiSurface.Hierarchy

/-!
Rules on matched pairs: what it means that a declaration changed. Each rule looks at the old and the
new version of one declaration. An answer that an unknown class leaves open raises nothing.
-/

namespace ApiSurface.Rules

/-- The type that a declaration has for its users: what a method returns, and what a field or a
parameter holds. -/
def declaredType? (d : Decl) : Option TypeRef :=
  match d.item.payload with
  | .method info => info.returnType
  | .field info => some info.type
  | .parameter info => some info.type
  | _ => none

/-- Whether two types are written alike but for blanks. -/
def sameText (a b : TypeRef) : Bool :=
  (a.text.toList.filter fun c => !Text.isBlank c) == b.text.toList.filter fun c => !Text.isBlank c

def namedParameter (type : TypeRef) (scope : List TypeParameter) : Option TypeParameter :=
  scope.find? fun p => p.name == type.baseName

/-- Whether a class can be subclassed outside its package: it has a constructor to call from there. -/
def hasAccessibleConstructor (d : Decl) : Bool :=
  d.constructors.any fun c => c.modifiers.visibility.isAccessible && !c.isEffectively .hidden

/-- Whether nobody can override a method: it is final, or its class is final or sealed. -/
def isEffectivelyFinal (method : Decl) : Bool :=
  method.modifiers.isFinal ||
    method.containingClass?.any fun owner => owner.modifiers.isFinal || owner.modifiers.isSealed

/-- The verdict of one exception of a method on whether the method throws `name`: the exception is
that one or a subclass of it, is something else, or is unknown. -/
def throwsAs (view : View) (name : String) (type : TypeRef) : Option Bool :=
  if type.baseName = name then some true
  else (view.resolve type).bind fun d => view.extendsClass d name

/-- Whether a method throws the exception `name` or a subclass of it. -/
def methodThrows (view : View) (method : Decl) (name : String) : Option Bool :=
  match method.asMethod? with
  | none => none
  | some info =>
    let verdicts := info.throws.map (throwsAs view name)
    if verdicts.contains (some true) then some true
    else if verdicts.all fun verdict => verdict == some false then some false
    else none

namespace Matched

section Common

variable (old new : Decl)

/-- Nobody may see less than before. -/
def visibility : List Finding :=
  let was := old.modifiers.visibility
  let now := new.modifiers.visibility
  raiseIf (now.isBelow was) .changedScope new
    (new.title ++ " changed visibility from " ++ was.label ++ " to " ++ now.label)

/-- The role in which a declaration makes a statement on null. -/
def nullabilityRole (d : Decl) : String :=
  match d.item.payload with
  | .parameter _ => "parameter"
  | .method _ => "method return"
  | .field _ => "field"
  | _ => "item"

/-- Whether it breaks users that a declaration goes from `was` to the opposite statement on null:
arguments must not be refused that were allowed, results must not be null that never were. A field is
both, unless it is final. -/
def nullabilityBreaks (was : Nullability) (d : Decl) : Bool :=
  match d.item.payload with
  | .parameter _ => was == .nullable
  | .method _ => was == .nonNull
  | .field _ => was == .nonNull || !d.modifiers.isFinal
  | _ => false

/-- A statement on null must stay. That a primitive value is not null goes without saying. -/
def nullability : List Finding :=
  match old.modifiers.nullability, new.modifiers.nullability with
  | none, _ => []
  | some was, none =>
    raiseIf (!((declaredType? new).any TypeRef.isPrimitive && was == .nonNull))
      .invalidNullConversion new
      ("Attempted to remove " ++ was.annotationName ++ " annotation from " ++ new.describe)
  | some was, some now =>
    raiseIf (now != was && nullabilityBreaks was new) .invalidNullConversion new
      ("Attempted to change " ++ nullabilityRole new ++ " from " ++ was.annotationName ++ " to " ++
        now.annotationName ++ ": incompatible change for " ++ new.describe)

/-- A member stays static or not. -/
def staticQualifier : List Finding :=
  raiseIf (old.modifiers.isStatic != new.modifiers.isStatic) .changedStatic new
    (new.title ++ " has changed 'static' qualifier")

/-- What was deprecated stays so. -/
def deprecation : List Finding :=
  raiseIf (old.flags.deprecated && !new.flags.deprecated) .changedDeprecated new
    (new.title ++ " has changed deprecation state true --> false")

/-- A class does not become final. If nobody could subclass it anyway, that is only remarked. -/
def classFinality : List Finding :=
  if !old.modifiers.isFinal && new.modifiers.isFinal then
    if hasAccessibleConstructor old then
      [{ kind := .addedFinal, subject := new, message := new.title ++ " added 'final' qualifier" }]
    else
      [{ kind := .addedFinalUninstantiable
         subject := new
         message := new.title ++ " added 'final' qualifier but was previously uninstantiable and " ++
          "therefore could not be subclassed" }]
  else []

end Common

variable (context : RuleContext) (old new : Decl)

/-- A class keeps implementing the interfaces that it named. -/
def removedInterfaces : List Finding :=
  old.interfaces.flatMap fun type =>
    raiseIf (context.newView.implementsInterface new type.baseName == some false) .removedInterface new
      (new.title ++ " no longer implements " ++ type.text)

/-- A class that others may subclass names no new interfaces. -/
def addedInterfaces : List Finding :=
  if new.isClosed then []
  else
    new.interfaces.flatMap fun type =>
      raiseIf (context.oldView.implementsInterface old type.baseName == some false)
        .addedInterface new ("Added interface " ++ type.text ++ " to " ++ new.describe)

/-- A class stays a subclass of its superclass. -/
def superclass : List Finding :=
  match old.superclass? with
  | none => []
  | some was =>
    raiseIf (context.newView.extendsClass new was.baseName == some false) .changedSuperclass new
      (new.title ++ " superclass changed from " ++ was.text ++ " to " ++
        (new.superclass?.map (·.text)).getD TypeRef.objectName)

def classRules : List Finding :=
  match old.asClass?, new.asClass? with
  | some was, some now =>
    raiseIf (was.kind != now.kind) .changedClass new
        (new.title ++ " changed class/interface declaration from " ++ was.kind.label ++ " to " ++
          now.kind.label) ++
      visibility old new ++
      classFinality old new ++
      raiseIf (was.kind == .classType && now.kind == .classType && !old.modifiers.isAbstract &&
          new.modifiers.isAbstract) .changedAbstract new
        (new.title ++ " changed 'abstract' qualifier") ++
      staticQualifier old new ++
      removedInterfaces context old new ++
      addedInterfaces context old new ++
      superclass context old new
  | _, _ => []

/-- Whether it matters at all if a method is final: not for constructors, static methods and the
methods of enums, and not if nobody could subclass the old class. -/
def finalityMatters : Bool :=
  !new.isConstructor && !old.modifiers.isStatic && !new.modifiers.isStatic &&
    match old.containingClass?, new.containingClass? with
    | some oldOwner, some newOwner =>
      oldOwner.classKind? != some .enumType && newOwner.classKind? != some .enumType &&
        (oldOwner.classKind? != some .classType || hasAccessibleConstructor oldOwner)
    | _, _ => false

/-- A method that others may override stays so, and one that they may not stays so too. -/
def methodFinality : List Finding :=
  if finalityMatters old new then
    match isEffectivelyFinal old, isEffectivelyFinal new with
    | false, true =>
      [{ kind := .addedFinal, subject := new, message := new.title ++ " has added 'final' qualifier" }]
    | true, false =>
      [{ kind := .removedFinal
         subject := new
         message := new.title ++ " has removed 'final' qualifier" }]
    | _, _ => []
  else []

/-- Whether the class of a member is an interface or an annotation type. -/
def isInterfaceMember (d : Decl) : Bool :=
  (d.containingClass?.bind Decl.classKind?).any ClassKind.isInterfaceLike

/-- A method outside interfaces does not become abstract. An old partial surface may have shown it
without a body, so its inherited methods do not count. -/
def methodAbstract : List Finding :=
  raiseIf (!isInterfaceMember new && !old.modifiers.isAbstract && new.modifiers.isAbstract &&
      !((old.asMethod?.any (·.isInherited)) && old.surface.isPartial)) .changedAbstract new
    (new.title ++ " has changed 'abstract' qualifier")

/-- A method of an interface keeps its body. -/
def methodDefault : List Finding :=
  raiseIf (old.modifiers.isDefault && !new.modifiers.isDefault && !new.modifiers.isStatic)
    .changedDefault new (new.title ++ " has changed 'default' qualifier")

/-- Whether every bound of a type parameter but the root of the hierarchy is a supertype of the class.
The first bound that is not, or that an unknown class leaves open, decides. -/
def withinBounds (view : View) (d : Decl) : List TypeRef → Option Bool
  | [] => some true
  | bound :: rest =>
    if bound.baseName = TypeRef.objectName then withinBounds view d rest
    else
      match view.extendsOrImplements d bound.baseName with
      | some true => withinBounds view d rest
      | verdict => verdict

/-- Whether callers of the old method can use the result of the new one. A result may become a type
parameter within whose bounds it stays, and not the other way round. -/
def returnTypeCompatible (was now : TypeRef) : Option Bool :=
  match namedParameter was old.typeScope, namedParameter now new.typeScope with
  | none, some parameter =>
    if was.isPrimitive || was.arrayDimensions != now.arrayDimensions then some false
    else if parameter.bounds.all fun bound => bound.baseName == TypeRef.objectName then some true
    else (context.oldView.resolve was).bind fun d => withinBounds context.oldView d parameter.bounds
  | some _, none => some false
  | some wasParameter, some nowParameter =>
    some (was.arrayDimensions == now.arrayDimensions && wasParameter.bounds == nowParameter.bounds)
  | none, none => some (sameText was now)

/-- A method keeps returning what its callers expect. -/
def returnType : List Finding :=
  match old.asMethod?.bind (·.returnType), new.asMethod?.bind (·.returnType) with
  | some was, some now =>
    raiseIf (returnTypeCompatible context old new was now == some false) .changedType new
      (new.title ++ " has changed return type from " ++ was.text ++ " to " ++ now.text)
  | _, _ => []

/-- A method throws exactly what it threw, up to subclasses that are named in place of a superclass.
What finalizers and the methods of every enum throw does not count. -/
def exceptions : List Finding :=
  match old.asMethod?, new.asMethod? with
  | some was, some now =>
    if isFinalizer old || isEnumAccessor new then []
    else
      (was.throws.flatMap fun type =>
        raiseIf (methodThrows context.newView new type.baseName == some false) .changedThrows new
          (new.title ++ " no longer throws exception " ++ type.text)) ++
      now.throws.flatMap fun type =>
        raiseIf (methodThrows context.oldView old type.baseName == some false) .changedThrows new
          (new.title ++ " added thrown exception " ++ type.text)
  | _, _ => []

def methodRules : List Finding :=
  visibility old new ++
    (if new.isConstructor then [] else nullability old new) ++
    methodFinality old new ++
    methodAbstract old new ++
    methodDefault old new ++
    staticQualifier old new ++
    returnType context old new ++
    exceptions context old new

/-- A field does not become final. -/
def fieldFinality : List Finding :=
  raiseIf (!old.modifiers.isFinal && new.modifiers.isFinal) .addedFinal new
    (new.title ++ " has added 'final' qualifier")

/-- A constant keeps its value, which users may have compiled in. -/
def constantValue (was now : FieldInfo) : List Finding :=
  match was.value, now.value with
  | none, _ => []
  | some before, some after =>
    raiseIf (after != before) .changedValue new
      (new.title ++ " has changed value from " ++ before ++ " to " ++ after)
  | some before, none =>
    raiseIf true .changedValue new (new.title ++ " has changed value from " ++ before ++ " to nothing")

def fieldRules : List Finding :=
  match old.asField?, new.asField? with
  | some was, some now =>
    visibility old new ++
      nullability old new ++
      staticQualifier old new ++
      fieldFinality old new ++
      raiseIf (!sameText was.type now.type) .changedType new
        (new.title ++ " has changed type from " ++ was.type.text ++ " to " ++ now.type.text) ++
      constantValue new was now
  | _, _ => []

/-- A parameter keeps the name by which callers may pass the argument. -/
def parameterName (was now : ParameterInfo) : List Finding :=
  match was.name, now.name with
  | none, _ => []
  | some _, none =>
    raiseIf true .parameterNameRemoved new
      ("Attempted to remove parameter name from " ++ old.describe)
  | some before, some after =>
    raiseIf (after != before) .parameterNameChange new
      ("Attempted to change parameter name from " ++ before ++ " to " ++ after ++ " in " ++
        (new.containingMethod?.map Decl.describe).getD "")

def parameterRules : List Finding :=
  match old.asParameter?, new.asParameter? with
  | some was, some now =>
    nullability old new ++
      parameterName old new was now ++
      raiseIf (was.hasDefault && !now.hasDefault) .defaultValueRemoved new
        ("Attempted to remove default value from " ++ old.describe) ++
      raiseIf (was.isVarargs && !now.isVarargs) .varargRemoval new
        ("Changing from varargs to array is an incompatible change to " ++ new.describe)
  | _, _ => []

/-- What is found about the two versions of a declaration. -/
def findings : List Finding :=
  match new.item.payload with
  | .package _ => deprecation old new
  | .ofClass _ => deprecation old new ++ classRules context old new
  | .method _ | .constructor _ => deprecation old new ++ methodRules context old new
  | .field _ => deprecation old new ++ fieldRules old new
  | .parameter _ => parameterRules old new

end Matched

end ApiSurface.Rules
