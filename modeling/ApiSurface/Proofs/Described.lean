import ApiSurface.Proofs.PathGrowth

/-! # What a document describes

A document describes the paths of the declarations that it makes. Where they come to stand does not matter
for what is described; the paths in document order say that too, each package before its classes, each
class before its members and the classes in it, each method before its parameters. -/
namespace ApiSurface

open Arena Surface

/-! ## Paths of specs -/

namespace ParameterSpec

def trait (spec : ParameterSpec) (position : Nat) : Trait where
  item :=
    { parent := none
      rank := 0
      modifiers := spec.modifiers
      flags := ({} : ItemFlags).declared
      isEmitted := true
      payload := .parameter
        { name := spec.name
          type := spec.type
          hasDefault := spec.hasDefault
          isVarargs := spec.isVarargs || spec.type.isVarargs
          position } }
  parameterTypes := []

end ParameterSpec

namespace MethodSpec

def info (isConstructor : Bool) (simpleName : String) (spec : MethodSpec) : MethodInfo where
  name := if isConstructor && spec.name == "" then simpleName else spec.name
  returnType := if isConstructor then none else spec.returnType
  throws := TypeRef.canonicalSort spec.throws
  typeParameters := spec.typeParameters
  property := spec.property
  annotationDefault := spec.annotationDefault

/-- What the method or constructor says of itself in a class with this simple name. -/
def trait (isConstructor : Bool) (simpleName : String) (spec : MethodSpec) : Trait where
  item :=
    { parent := none
      rank := 0
      modifiers := spec.modifiers
      flags := spec.flags.declared
      isEmitted := !spec.isStub
      payload :=
        if isConstructor then .constructor (spec.info isConstructor simpleName)
        else .method (spec.info isConstructor simpleName) }
  parameterTypes := spec.parameters.map (·.type)

/-- The method with its parameters, as it is described in a class with the path `around`. -/
def Describes (isConstructor : Bool) (simpleName : String) (around : List Trait) (spec : MethodSpec)
    (path : List Trait) : Prop :=
  path = spec.trait isConstructor simpleName :: around ∨
    ∃ t ∈ spec.parameters.mapIdx (fun position p => p.trait position),
      path = t :: spec.trait isConstructor simpleName :: around

end MethodSpec

def FieldSpec.trait (spec : FieldSpec) : Trait where
  item :=
    { parent := none
      rank := 0
      modifiers := spec.modifiers
      flags := spec.flags.declared
      isEmitted := !spec.isStub
      payload := .field
        { name := spec.name
          type := spec.type
          value := spec.value
          isEnumConstant := spec.isEnumConstant } }
  parameterTypes := []

namespace ClassSpec

def simpleName (spec : ClassSpec) : String := Draft.simpleName (Text.trimmed spec.name)

def trait (spec : ClassSpec) : Trait where
  item :=
    { parent := none
      rank := 0
      modifiers := spec.modifiers
      flags := spec.flags.declared
      isEmitted := !spec.isStub
      payload := .ofClass
        { Draft.emptyClass ⟨0⟩ none spec with
          interfaces := TypeRef.canonicalSort spec.interfaces } }
  parameterTypes := []

/-- The class with its members and the classes in it, as they are described inside the path `around`. -/
inductive Describes : List Trait → ClassSpec → List Trait → Prop where
  | self {around : List Trait} {spec : ClassSpec} : Describes around spec (spec.trait :: around)
  | constructor {around : List Trait} {spec : ClassSpec} {path : List Trait} {m : MethodSpec}
      (hm : m ∈ spec.constructors)
      (h : m.Describes true spec.simpleName (spec.trait :: around) path) : Describes around spec path
  | method {around : List Trait} {spec : ClassSpec} {path : List Trait} {m : MethodSpec}
      (hm : m ∈ spec.methods)
      (h : m.Describes false spec.simpleName (spec.trait :: around) path) : Describes around spec path
  | field {around : List Trait} {spec : ClassSpec} {f : FieldSpec} (hf : f ∈ spec.fields) :
      Describes around spec (f.trait :: spec.trait :: around)
  | nested {around : List Trait} {spec n : ClassSpec} {path : List Trait} (hn : n ∈ spec.nested)
      (h : Describes (spec.trait :: around) n path) : Describes around spec path

/-- What is described inside a path is longer than that. -/
theorem Describes.length_lt {around path : List Trait} {spec : ClassSpec}
    (h : spec.Describes around path) : around.length < path.length := by
  induction h with
  | self => exact Nat.lt_succ_self _
  | constructor _ h | method _ h =>
    rcases h with rfl | ⟨_, _, rfl⟩
    all_goals
      simp only [List.length_cons]
      omega
  | field =>
    simp only [List.length_cons]
    omega
  | nested _ _ ih =>
    rw [List.length_cons] at ih
    omega

theorem describes_iff {around : List Trait} {spec : ClassSpec} {path : List Trait} :
    spec.Describes around path ↔ path = spec.trait :: around ∨
      (∃ m ∈ spec.constructors, m.Describes true spec.simpleName (spec.trait :: around) path) ∨
      (∃ m ∈ spec.methods, m.Describes false spec.simpleName (spec.trait :: around) path) ∨
      (∃ f ∈ spec.fields, path = f.trait :: spec.trait :: around) ∨
      ∃ n ∈ spec.nested, n.Describes (spec.trait :: around) path := by
  constructor
  · intro h
    cases h with
    | self => exact .inl rfl
    | constructor hm h => exact .inr (.inl ⟨_, hm, h⟩)
    | method hm h => exact .inr (.inr (.inl ⟨_, hm, h⟩))
    | field hf => exact .inr (.inr (.inr (.inl ⟨_, hf, rfl⟩)))
    | nested hn h => exact .inr (.inr (.inr (.inr ⟨_, hn, h⟩)))
  · rintro (rfl | ⟨m, hm, h⟩ | ⟨m, hm, h⟩ | ⟨f, hf, rfl⟩ | ⟨n, hn, h⟩)
    · exact .self
    · exact .constructor hm h
    · exact .method hm h
    · exact .field hf
    · exact .nested hn h

end ClassSpec

namespace PackageSpec

def trait (spec : PackageSpec) : Trait where
  item :=
    { parent := none
      rank := 0
      modifiers := .ofVisibility .publicAccess
      flags := spec.flags.declared
      isEmitted := !spec.isStub
      payload := .package { name := spec.name } }
  parameterTypes := []

def Describes (spec : PackageSpec) (path : List Trait) : Prop :=
  path = [spec.trait] ∨ ∃ c ∈ spec.classes, c.Describes [spec.trait] path

end PackageSpec

namespace Snapshot

def Describes (snapshot : Snapshot) (path : List Trait) : Prop :=
  ∃ p ∈ snapshot.packages, p.Describes path

end Snapshot

/-! ## Paths in document order -/

/-- The path of the method, then those of its parameters, in a class with the path `around`. -/
def MethodSpec.paths (isConstructor : Bool) (simpleName : String) (around : List Trait)
    (spec : MethodSpec) : List (List Trait) :=
  let inside := spec.trait isConstructor simpleName :: around
  inside :: spec.parameters.mapIdx fun position p => p.trait position :: inside

theorem MethodSpec.mem_paths_iff {isConstructor : Bool} {simpleName : String} {around : List Trait}
    {spec : MethodSpec} {path : List Trait} : path ∈ spec.paths isConstructor simpleName around ↔
      spec.Describes isConstructor simpleName around path := by
  unfold paths Describes
  simp only [List.mem_cons, List.mem_mapIdx]
  refine or_congr_right ⟨?_, ?_⟩
  · rintro ⟨k, hk, rfl⟩
    exact ⟨_, ⟨k, hk, rfl⟩, rfl⟩
  · rintro ⟨_, ⟨k, hk, rfl⟩, rfl⟩
    exact ⟨k, hk, rfl⟩

mutual
/-- The path of the class, then those of its members, then those of the classes in it. -/
def ClassSpec.paths (around : List Trait) (spec : ClassSpec) : List (List Trait) :=
  let inside := spec.trait :: around
  inside :: (spec.constructors.flatMap (MethodSpec.paths true spec.simpleName inside) ++
    (spec.methods.flatMap (MethodSpec.paths false spec.simpleName inside) ++
      (spec.fields.map (fun f => f.trait :: inside) ++
        match spec with
        | ⟨_, _, _, _, _, _, _, _, _, _, _, nested⟩ => pathsIn inside nested)))

def ClassSpec.pathsIn (around : List Trait) : List ClassSpec → List (List Trait)
  | [] => []
  | spec :: rest => spec.paths around ++ pathsIn around rest
end

namespace ClassSpec

variable {around path : List Trait} {spec : ClassSpec}

theorem pathsIn_eq (around : List Trait) (specs : List ClassSpec) :
    pathsIn around specs = specs.flatMap (paths around) := by
  induction specs with
  | nil => rw [pathsIn, List.flatMap_nil]
  | cons spec rest ih => rw [pathsIn, ih, List.flatMap_cons]

mutual
theorem mem_paths_iff (around path : List Trait) : (spec : ClassSpec) →
    (path ∈ spec.paths around ↔ spec.Describes around path)
  | ⟨name, kind, modifiers, flags, isStub, superclass, interfaces, typeParameters, constructors,
      methods, fields, nested⟩ => by
    rw [paths, describes_iff]
    simp only [List.mem_cons, List.mem_append, List.mem_flatMap, MethodSpec.mem_paths_iff,
      List.mem_map, mem_pathsIn_iff _ _ nested, eq_comm (a := path)]

theorem mem_pathsIn_iff (around path : List Trait) : (specs : List ClassSpec) →
    (path ∈ pathsIn around specs ↔ ∃ n ∈ specs, n.Describes around path)
  | [] => by simp [pathsIn]
  | spec :: rest => by
    rw [pathsIn, List.mem_append, mem_paths_iff around path spec, mem_pathsIn_iff around path rest,
      List.exists_mem_cons_iff]
end

/-- The class `c`, inside the path `around'`, is the class `spec` inside `around` or one of those in it. -/
inductive Contains : List Trait → ClassSpec → List Trait → ClassSpec → Prop where
  | self {around : List Trait} {spec : ClassSpec} : Contains around spec around spec
  | nested {around around' : List Trait} {spec n c : ClassSpec} (hn : n ∈ spec.nested)
      (h : Contains (spec.trait :: around) n around' c) : Contains around spec around' c

/-- The paths of the members that a class inside `around` declares itself, list by list. -/
def listing (around : List Trait) (spec : ClassSpec) : Slot → List (List Trait)
  | .constructors => spec.constructors.map fun m => m.trait true spec.simpleName :: spec.trait :: around
  | .methods => spec.methods.map fun m => m.trait false spec.simpleName :: spec.trait :: around
  | .fields => spec.fields.map fun f => f.trait :: spec.trait :: around
  | _ => []

end ClassSpec

namespace PackageSpec

/-- The package that the classes of `spec` go to, the first one of that name. -/
def bearer (earlier : List PackageSpec) (spec : PackageSpec) : PackageSpec :=
  (earlier.find? (·.name == spec.name)).getD spec

/-- The path of the package, unless an earlier one has its name, then those of its classes. -/
def paths (earlier : List PackageSpec) (spec : PackageSpec) : List (List Trait) :=
  (if earlier.any (·.name == spec.name) then [] else [[spec.trait]]) ++
    ClassSpec.pathsIn [(spec.bearer earlier).trait] spec.classes

def pathsAfter : (earlier specs : List PackageSpec) → List (List Trait)
  | _, [] => []
  | earlier, spec :: rest => spec.paths earlier ++ pathsAfter (earlier ++ [spec]) rest

/-- Packages of different names have their own classes. -/
theorem mem_pathsAfter_iff {earlier specs : List PackageSpec} {path : List Trait}
    (hnames : ((earlier ++ specs).map (·.name)).Nodup) :
    path ∈ pathsAfter earlier specs ↔ ∃ spec ∈ specs, spec.Describes path := by
  induction specs generalizing earlier with
  | nil => simp [pathsAfter]
  | cons spec rest ih =>
    have hrest : ((earlier ++ [spec] ++ rest).map (·.name)).Nodup := by
      rwa [List.append_assoc, List.singleton_append]
    have hno : ∀ p ∈ earlier, p.name ≠ spec.name := by
      intro p hp
      rw [List.map_append, List.nodup_append] at hnames
      exact hnames.2.2 _ (List.mem_map_of_mem hp) _ (List.mem_map_of_mem List.mem_cons_self)
    have hbearer : spec.bearer earlier = spec := by
      unfold bearer
      rw [List.find?_eq_none.mpr fun p hp => by simpa using hno p hp]
      rfl
    have hany : earlier.any (·.name == spec.name) = false :=
      List.any_eq_false.mpr fun p hp => by simpa using hno p hp
    rw [pathsAfter, List.mem_append, ih hrest, List.exists_mem_cons_iff, paths, hbearer, hany]
    refine or_congr_left ?_
    rw [if_neg Bool.false_ne_true, List.mem_append, List.mem_singleton, ClassSpec.mem_pathsIn_iff]
    rfl

end PackageSpec

namespace Snapshot

def paths (snapshot : Snapshot) : List (List Trait) := PackageSpec.pathsAfter [] snapshot.packages

def Contains (snapshot : Snapshot) (around : List Trait) (c : ClassSpec) : Prop :=
  ∃ before p after, snapshot.packages = before ++ p :: after ∧
    ∃ outermost ∈ p.classes, outermost.Contains [(p.bearer before).trait] around c

theorem mem_paths_iff {snapshot : Snapshot} (hnames : (snapshot.packages.map (·.name)).Nodup)
    {path : List Trait} : path ∈ snapshot.paths ↔ snapshot.Describes path :=
  PackageSpec.mem_pathsAfter_iff hnames

end Snapshot

end ApiSurface
