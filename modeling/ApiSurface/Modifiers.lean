/-!
Modifiers of a declaration: how visible it is, the facets its declaration names, and an explicit
statement on null.
-/

namespace ApiSurface

/-- The levels of visibility, from the least to the most visible. -/
inductive Visibility where
  | privateAccess
  | packageAccess
  | internalAccess
  | protectedAccess
  | publicAccess
  deriving DecidableEq, Repr, Inhabited

namespace Visibility

def rank : Visibility → Nat
  | .privateAccess => 0
  | .packageAccess => 1
  | .internalAccess => 2
  | .protectedAccess => 3
  | .publicAccess => 4

instance : Ord Visibility := ⟨fun a b => compare a.rank b.rank⟩

def label : Visibility → String
  | .privateAccess => "private"
  | .packageAccess => "package private"
  | .internalAccess => "internal"
  | .protectedAccess => "protected"
  | .publicAccess => "public"

def name : Visibility → String
  | .packageAccess => "package_private"
  | level => level.label

/-- All levels, the least visible first. -/
def all : List Visibility :=
  [privateAccess, packageAccess, internalAccess, protectedAccess, publicAccess]

def ofName? (name : String) : Option Visibility := all.find? fun level => level.name == name

/-- Whether the level reaches beyond the declaring package: protected or public. -/
def isAccessible (level : Visibility) : Bool := protectedAccess.rank ≤ level.rank

def isBelow (a b : Visibility) : Bool := a.rank < b.rank

theorem rank_injective {a b : Visibility} (h : a.rank = b.rank) : a = b := by
  cases a <;> cases b <;> simp [rank] at h <;> rfl

theorem ofName?_name (level : Visibility) : ofName? level.name = some level := by
  cases level <;> decide

end Visibility

/-- An explicit statement whether a value may be null. -/
inductive Nullability where
  | nullable
  | nonNull
  deriving DecidableEq, Repr

namespace Nullability

def annotationName : Nullability → String
  | .nullable => "@Nullable"
  | .nonNull => "@NonNull"

def name : Nullability → String
  | .nullable => "nullable"
  | .nonNull => "non_null"

def ofName? (name : String) : Option Nullability :=
  [nullable, nonNull].find? fun statement => statement.name == name

end Nullability

inductive Facet where
  | static
  | final
  | abstract
  | default
  | native
  | sealed
  | functional
  | operator
  | infixCall
  | inline
  deriving DecidableEq, Repr

namespace Facet

def all : List Facet :=
  [static, final, abstract, default, native, sealed, functional, operator, infixCall, inline]

def keyword : Facet → String
  | .static => "static"
  | .final => "final"
  | .abstract => "abstract"
  | .default => "default"
  | .native => "native"
  | .sealed => "sealed"
  | .functional => "functional"
  | .operator => "operator"
  | .infixCall => "infix"
  | .inline => "inline"

end Facet

structure Modifiers where
  visibility : Visibility := .packageAccess
  isStatic : Bool := false
  isFinal : Bool := false
  isAbstract : Bool := false
  isDefault : Bool := false
  isNative : Bool := false
  isSealed : Bool := false
  isFunctional : Bool := false
  isOperator : Bool := false
  isInfix : Bool := false
  isInline : Bool := false
  nullability : Option Nullability := none
  deriving DecidableEq, Repr, Inhabited

namespace Modifiers

def ofVisibility (visibility : Visibility) : Modifiers := { visibility }

def has (m : Modifiers) : Facet → Bool
  | .static => m.isStatic
  | .final => m.isFinal
  | .abstract => m.isAbstract
  | .default => m.isDefault
  | .native => m.isNative
  | .sealed => m.isSealed
  | .functional => m.isFunctional
  | .operator => m.isOperator
  | .infixCall => m.isInfix
  | .inline => m.isInline

def set (m : Modifiers) (facet : Facet) (present : Bool) : Modifiers :=
  match facet with
  | .static => { m with isStatic := present }
  | .final => { m with isFinal := present }
  | .abstract => { m with isAbstract := present }
  | .default => { m with isDefault := present }
  | .native => { m with isNative := present }
  | .sealed => { m with isSealed := present }
  | .functional => { m with isFunctional := present }
  | .operator => { m with isOperator := present }
  | .infixCall => { m with isInfix := present }
  | .inline => { m with isInline := present }

/-- The facets that are present, in the order in which they are listed. -/
def facets (m : Modifiers) : List Facet := Facet.all.filter m.has

/-- Whether the modifiers agree in all that a user of the declaration depends on: visibility,
static, final, abstract and default. -/
def equivalent (a b : Modifiers) : Bool :=
  a.visibility == b.visibility && a.isStatic == b.isStatic && a.isFinal == b.isFinal &&
    a.isAbstract == b.isAbstract && a.isDefault == b.isDefault

end Modifiers

end ApiSurface
