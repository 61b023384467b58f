import ApiSurface.Hierarchy

/-!
Overrides. A method overrides, through each direct supertype of its class, the first method found
there that matches it. Private and static methods neither override nor are overridden.
-/

namespace ApiSurface.Surface

def isOverridable (method : Decl) : Bool :=
  !method.modifiers.isStatic && method.modifiers.visibility != .privateAccess

/-- The direct supertypes of a class that the surface declares: the superclass, then the interfaces in
canonical order. A class is no supertype of itself. -/
def directSupertypes (s : Surface) (d : Decl) : List Decl :=
  ((d.superclass?.toList ++ d.interfaces).filterMap fun t => s.findClass? t.baseName).filter
    fun above => above.id != d.id

def overriddenThrough (s : Surface) (method supertype : Decl) : Option Decl :=
  (s.alone.findMethod? supertype method true true).filter isOverridable

/-- The methods that a method overrides directly, through each supertype at most one. -/
def overriddenBy (s : Surface) (supertypes : List Decl) (method : Decl) : List ItemId :=
  if isOverridable method then
    (supertypes.filterMap fun above => (s.overriddenThrough method above).map (·.id)).eraseDups
  else []

/-- The overriding methods of a surface, each with what it overrides. -/
def overrides (s : Surface) : List (ItemId × List ItemId) :=
  s.classDecls.flatMap fun d =>
    let supertypes := s.directSupertypes d
    d.methods.map fun method => (method.id, s.overriddenBy supertypes method)

def noteOverridden (items : Array Item) (entry : ItemId × List ItemId) : Array Item :=
  items.modify entry.1.index fun item =>
    match item.payload with
    | .method info => { item with payload := .method { info with overridden := entry.2 } }
    | _ => item

def withOverrides (s : Surface) : Surface :=
  { s with items := s.overrides.foldl noteOverridden s.items }

end ApiSurface.Surface
