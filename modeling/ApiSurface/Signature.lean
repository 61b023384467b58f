import ApiSurface.Surface

/-!
Signatures of methods and constructors. Two tests compare them. The loose one pairs the versions of
a method in two surfaces; the strict one tells whether a method says exactly what the one it may
override says.
-/

namespace ApiSurface

namespace TypeRef

/-- Whether an unresolved type variable may stand for the other type: without array levels for
anything but a primitive type, with array levels for an array of as many levels whose elements are
not primitive. -/
def mayStandFor (unresolved other : TypeRef) : Bool :=
  unresolved.isUnresolvedVariable &&
    if unresolved.arrayDimensions = 0 then !other.isPrimitive
    else
      other.arrayDimensions == unresolved.arrayDimensions && !(trimmed other.baseName).isPrimitive

end TypeRef

namespace Decl

/-- Whether a parameter type of `a` agrees with one of `b`: as written, after erasure, or because an
unresolved variable of a partial surface may stand for the other one. -/
def parameterAgrees (a b : Decl) (s t : TypeRef) : Bool :=
  s == t || s.erasureIn a.typeScope == t.erasureIn b.typeScope ||
    (a.surface.isPartial && s.mayStandFor t) || (b.surface.isPartial && t.mayStandFor s)

/-- The loose test: same name, same number of parameters, and every parameter agrees. -/
def signatureMatches (a b : Decl) : Bool :=
  match a.asMethod?, b.asMethod? with
  | some m, some n =>
    m.name == n.name && a.parameterTypes.length == b.parameterTypes.length &&
      (a.parameterTypes.zip b.parameterTypes).all fun (s, t) => parameterAgrees a b s t
  | _, _ => false

/-- The strict test between a method and the one it may override: same return type, not deprecated
only above, equivalent modifiers, the same parameter types (after erasure if `rawTypes`) and the same
exceptions. The names do not count. -/
def sameSignature (method above : Decl) (rawTypes : Bool) : Bool :=
  match method.asMethod?, above.asMethod? with
  | some m, some n =>
    m.returnType == n.returnType && !(above.flags.deprecated && !method.flags.deprecated) &&
      method.modifiers.equivalent above.modifiers &&
      method.parameterTypes.length == above.parameterTypes.length &&
      ((method.parameterTypes.zip above.parameterTypes).all fun (s, t) =>
        if rawTypes then s.erasureIn method.typeScope == t.erasureIn above.typeScope else s == t) &&
      m.throws == n.throws
  | _, _ => false

end Decl

end ApiSurface
