import ApiSurface.Surface

/-!
Views. A view is a surface together with others that are asked, in order, for the classes it lacks.
-/

namespace ApiSurface

/-- Surfaces to look names up in. The primary one is authoritative. -/
structure View where
  primary : Surface
  fallbacks : List Surface := []

def Surface.alone (s : Surface) : View := { primary := s }

namespace View

variable (v : View)

def surfaces : List Surface := v.primary :: v.fallbacks

def extend (more : List Surface) : View := { v with fallbacks := v.fallbacks ++ more }

def findPackage? (name : String) : Option Decl := v.surfaces.findSome? (·.findPackage? name)

def findClass? (name : String) : Option Decl := v.surfaces.findSome? (·.findClass? name)

def resolve (type : TypeRef) : Option Decl := v.findClass? type.baseName

/-- An upper bound for the number of class names that the view knows. -/
def classCount : Nat := v.surfaces.foldr (fun s count => s.classes.size + count) 0

end View

end ApiSurface
