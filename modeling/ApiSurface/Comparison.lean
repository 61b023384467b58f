import Std.Data.TreeSet
import ApiSurface.Signature
import ApiSurface.Filter

/-!
Comparison of two surfaces. The old and the new surface are walked side by side, and every
declaration is matched with its counterpart, added or removed. The new surface is seen through a
filter, the old one is not.

The walk follows an order that does not depend on the order of declaration: packages and classes by
name, constructors, methods and fields by signature, parameters by position. A class that is missing
on one side is reported once, and not again for the classes inside it.
-/

namespace ApiSurface

/-- What the comparison finds about one declaration, or about one pair. -/
inductive Event where
  /-- The two declarations are versions of the same one. -/
  | matched (old new : Decl)
  /-- The old declaration has no counterpart in its place, which is `place` in the new surface. -/
  | removed (old : Decl) (place : Option Decl)
  /-- The new declaration has no counterpart. -/
  | added (new : Decl)

namespace Comparison

/-- The signature of a method, as far as it decides the order. -/
structure MethodKey where
  name : String
  arity : Nat
  /-- The parameter types after erasure. -/
  erased : List String
  /-- The parameter types as written. -/
  literal : List String
  deriving DecidableEq, Repr

namespace MethodKey

def ofDecl (d : Decl) : MethodKey :=
  { name := d.name
    arity := d.parameterTypes.length
    erased := d.parameterTypes.map (·.erasureIn d.typeScope)
    literal := d.parameterTypes.map (·.text) }

/-- Keys are ordered by name, number of parameters, erased types and written types, in this turn. -/
def order (a b : MethodKey) : Ordering :=
  (compare a.name b.name).then <| (compare a.arity b.arity).then <|
    (compare a.erased b.erased).then (compare a.literal b.literal)

end MethodKey

structure Keyed where
  key : MethodKey
  decl : Decl

/-- The methods in the order of their keys. Equal keys keep the order of declaration. -/
def sortedByKey (ds : List Decl) : List Keyed :=
  (ds.map fun d => { key := .ofDecl d, decl := d }).mergeSort fun a b =>
    ((a.key.order b.key).then (compare a.decl.item.rank b.decl.item.rank)).isLE

/-- The partner of one method: nothing on the old side or on the new side if it has none. -/
inductive Pairing where
  | both (old new : Decl)
  | oldOnly (old : Decl)
  | newOnly (new : Decl)

/-- Pairs methods greedily: each old one, in turn, takes the first new one that is left and that it
matches. The new ones that nobody takes come last. -/
def pairUp : List Keyed → List Keyed → List (MethodKey × Pairing)
  | [], new => new.map fun n => (n.key, .newOnly n.decl)
  | o :: old, new =>
    match new.find? fun n => o.decl.signatureMatches n.decl with
    | some n =>
      (o.key, .both o.decl n.decl) ::
        pairUp old (new.eraseP fun n => o.decl.signatureMatches n.decl)
    | none => (o.key, .oldOnly o.decl) :: pairUp old new

/-- The events of a pairing whose new methods belong to `newClass`. The parameters of a pair are
paired by position. -/
def Pairing.events (newClass : Decl) : Pairing → List Event
  | .both old new =>
    .matched old new :: (old.parameters.zip new.parameters).map fun (o, n) => .matched o n
  | .oldOnly old => [.removed old (some newClass)]
  | .newOnly new => [.added new]

/-- The events of the methods, or of the constructors, of two classes. Of two events with equal keys
one about an old method comes before one about an added method. -/
def methodEvents (newClass : Decl) (old new : List Decl) : List Event :=
  let pairs := pairUp (sortedByKey old) (sortedByKey new)
  (pairs.mergeSort fun a b => (a.1.order b.1).isLE).flatMap fun p => p.2.events newClass

abbrev ByName := Std.TreeMap String Decl

/-- The declarations by name, of equal names the last one. -/
def lastByName (ds : List Decl) : ByName :=
  ds.foldl (fun table d => table.insert d.name d) ∅

/-- The declarations by name, of equal names the first one. -/
def firstByName (ds : List Decl) : ByName :=
  ds.foldl (fun table d => table.insertIfNew d.name d) ∅

/-- The names of either table, in order. -/
def unionNames (a b : List String) : List String := (Std.TreeSet.ofList (a ++ b)).toList

def fieldEvents (newClass : Decl) (old new : List Decl) : List Event :=
  let oldFields := firstByName old
  let newFields := firstByName new
  (unionNames oldFields.keys newFields.keys).flatMap fun name =>
    match oldFields[name]?, newFields[name]? with
    | some o, some n => [.matched o n]
    | some o, none => [.removed o (some newClass)]
    | none, some n => [.added n]
    | none, none => []

def memberEvents (filter : Filter) (old new : Decl) : List Event :=
  methodEvents new old.constructors (new.constructors.filter filter) ++
    methodEvents new old.methods (new.methods.filter filter) ++
    fieldEvents new old.fields (new.fields.filter filter)

/-- Whether a class around `d` is missing on the other side. Then `d` is missing with it. -/
def isWithinUnmatched (d : Decl) (other : ByName) : Bool :=
  d.enclosingClasses.any fun outer => !other.contains outer.name

def classEvents (filter : Filter) (old new : Decl) : List Event :=
  let oldClasses := lastByName old.classes
  let newClasses := lastByName (new.classes.filter filter)
  (unionNames oldClasses.keys newClasses.keys).flatMap fun name =>
    match oldClasses[name]?, newClasses[name]? with
    | some o, some n => .matched o n :: memberEvents filter o n
    | some o, none => if isWithinUnmatched o newClasses then [] else [.removed o (some new)]
    | none, some n => if isWithinUnmatched n oldClasses then [] else [.added n]
    | none, none => []

end Comparison

/-- The events of a comparison, in order. -/
def Surface.compare (old new : Surface) (filter : Filter) : List Event :=
  (Comparison.unionNames (old.packageDecls.map Decl.name) (new.packageDecls.map Decl.name)).flatMap
    fun name =>
      match old.findPackage? name, (new.findPackage? name).filter filter with
      | some o, some n => .matched o n :: Comparison.classEvents filter o n
      | some o, none => [.removed o none]
      | none, some n => [.added n]
      | none, none => []

end ApiSurface
