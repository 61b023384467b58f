import ApiSurface.Surface

/-!
Prescribed methods: those that a class has by the rules of the language, whatever it declares.
-/

namespace ApiSurface.Rules

/-- Whether a method is one of those that every enum has: `values()` and `valueOf(String)`. -/
def isEnumAccessor (method : Decl) : Bool :=
  match method.asMethod? with
  | none => false
  | some info =>
    (method.containingClass?.bind Decl.classKind?) == some .enumType &&
      ((info.name == "values" && method.parameters.isEmpty) ||
        (info.name == "valueOf" && method.parameters.length == 1 &&
          method.parameterTypes.all fun t => t.text == "java.lang.String" || t.text == "String"))

/-- Whether a method is the one that runs before an object is reclaimed. -/
def isFinalizer (method : Decl) : Bool :=
  (method.asMethod?.any fun info => info.name == "finalize") && method.parameters.isEmpty

end ApiSurface.Rules
