import ApiSurface.Proofs.Construction
import ApiSurface.Proofs.CoupledAdditions
import ApiSurface.Proofs.Recast

/-! # Restyled descriptions

A description can be restyled: every type in it is written in another way, and the data beside the point is
replaced. The additions never look at types except for a final `...`, which they note in the parameter. So if
the note is restyled as well, to restyle a description comes to the same as to restyle what it describes: every
addition does to the restyled draft what it did before, with the same result. -/
namespace ApiSurface

variable {α β : Type}

/-- How to write types in another way, and to replace the data on which nothing depends. -/
structure Restyling extends Recast where
  type : TypeRef → TypeRef := id
  /-- Whether a parameter of the type takes any number of arguments, if it was noted to do so or not. -/
  varargs : TypeRef → Bool → Bool := fun _ isVarargs => isVarargs
  varargs_or : ∀ t isVarargs, varargs t (isVarargs || t.isVarargs) = (isVarargs || (type t).isVarargs) := by
    exact fun _ _ => rfl

/-! ## What is restyled -/

def TypeParameter.restyled (p : TypeParameter) (v : Restyling) : TypeParameter :=
  { p with bounds := p.bounds.map v.type }

def ParameterSpec.restyled (spec : ParameterSpec) (v : Restyling) : ParameterSpec :=
  { spec with modifiers := spec.modifiers.recast v.toRecast, type := v.type spec.type }

def MethodSpec.restyled (spec : MethodSpec) (v : Restyling) : MethodSpec :=
  { spec with
    modifiers := spec.modifiers.recast v.toRecast
    flags := spec.flags.recast v.toRecast
    returnType := spec.returnType.map v.type
    parameters := spec.parameters.map (·.restyled v)
    throws := spec.throws.map v.type
    typeParameters := spec.typeParameters.map (·.restyled v)
    property := v.property spec.property }

def FieldSpec.restyled (spec : FieldSpec) (v : Restyling) : FieldSpec :=
  { spec with
    modifiers := spec.modifiers.recast v.toRecast
    flags := spec.flags.recast v.toRecast
    type := v.type spec.type
    isEnumConstant := v.isEnumConstant spec.isEnumConstant }

mutual
def ClassSpec.restyled (v : Restyling) : ClassSpec → ClassSpec
  | ⟨name, kind, modifiers, flags, isStub, superclass, interfaces, typeParameters, constructors,
      methods, fields, nested⟩ =>
    ⟨name, kind, modifiers.recast v.toRecast, flags.recast v.toRecast, isStub, superclass.map v.type,
      interfaces.map v.type, typeParameters.map (·.restyled v), constructors.map (·.restyled v),
      methods.map (·.restyled v), fields.map (·.restyled v), restyledEach v nested⟩

def ClassSpec.restyledEach (v : Restyling) : List ClassSpec → List ClassSpec
  | [] => []
  | spec :: rest => spec.restyled v :: restyledEach v rest
end

def PackageSpec.restyled (spec : PackageSpec) (v : Restyling) : PackageSpec :=
  { spec with flags := spec.flags.recast v.toRecast, classes := spec.classes.map (·.restyled v) }

def ClassInfo.restyled (info : ClassInfo) (v : Restyling) : ClassInfo :=
  { info with
    superclass := info.superclass.map v.type
    interfaces := info.interfaces.map v.type
    typeParameters := info.typeParameters.map (·.restyled v) }

def MethodInfo.restyled (info : MethodInfo) (v : Restyling) : MethodInfo :=
  { info.recast v.toRecast with
    returnType := info.returnType.map v.type
    throws := info.throws.map v.type
    typeParameters := info.typeParameters.map (·.restyled v) }

def FieldInfo.restyled (info : FieldInfo) (v : Restyling) : FieldInfo :=
  { info.recast v.toRecast with type := v.type info.type }

def ParameterInfo.restyled (info : ParameterInfo) (v : Restyling) : ParameterInfo :=
  { info with type := v.type info.type, isVarargs := v.varargs info.type info.isVarargs }

def Payload.restyled (v : Restyling) : Payload → Payload
  | .package info => .package info
  | .ofClass info => .ofClass (info.restyled v)
  | .method info => .method (info.restyled v)
  | .constructor info => .constructor (info.restyled v)
  | .field info => .field (info.restyled v)
  | .parameter info => .parameter (info.restyled v)

def Item.restyled (item : Item) (v : Restyling) : Item :=
  { item with
    modifiers := item.modifiers.recast v.toRecast
    flags := item.flags.recast v.toRecast
    payload := item.payload.restyled v }

def Draft.restyled (d : Draft) (v : Restyling) : Draft :=
  { d with location := v.location d.location, items := d.items.map (·.restyled v) }

variable (v : Restyling)

/-! ## Drafts -/

namespace Draft

variable (d : Draft)

theorem nextId_restyled : (d.restyled v).nextId = d.nextId :=
  congrArg ItemId.mk (Array.size_map ..)

theorem getElem?_items_restyled (id : ItemId) :
    (d.restyled v).items[id.index]? = d.items[id.index]?.map (·.restyled v) :=
  Array.getElem?_map ..

theorem classInfo_restyled (id : ItemId) :
    (d.restyled v).classInfo id = (d.classInfo id).map (·.restyled v) := by
  unfold classInfo
  rw [getElem?_items_restyled]
  cases d.items[id.index]? with
  | none => rfl
  | some item =>
    rcases item with ⟨_, _, _, _, _, payload⟩
    cases payload <;> rfl

theorem packageInfo_restyled (id : ItemId) : (d.restyled v).packageInfo id = d.packageInfo id := by
  unfold packageInfo
  rw [getElem?_items_restyled]
  cases d.items[id.index]? with
  | none => rfl
  | some item =>
    rcases item with ⟨_, _, _, _, _, payload⟩
    cases payload <;> rfl

theorem push_restyled (parent : Option ItemId) (modifiers : Modifiers) (flags : ItemFlags)
    (isEmitted : Bool) (payload : Payload) :
    (d.restyled v).push parent (modifiers.recast v.toRecast) (flags.recast v.toRecast) isEmitted
        (payload.restyled v) =
      (d.push parent modifiers flags isEmitted payload).restyled v := by
  have hitems : (d.restyled v).items = d.items.map (·.restyled v) := rfl
  unfold push
  rw [hitems, Array.size_map]
  refine congrArg (fun items => { d.restyled v with items }) ?_
  rw [Array.map_push]
  rfl

theorem modifyPayload_restyled (id : ItemId) {f : Payload → Payload}
    (h : ∀ payload : Payload, f (payload.restyled v) = (f payload).restyled v) :
    (d.restyled v).modifyPayload id f = (d.modifyPayload id f).restyled v := by
  have hitems : (d.items.modify id.index fun item => { item with payload := f item.payload }).map
      (·.restyled v) = (d.items.map (·.restyled v)).modify id.index
        fun item => { item with payload := f item.payload } :=
    map_modify (fun item => congrArg (fun payload => { item.restyled v with payload }) (h item.payload).symm)
      _ _
  exact congrArg (fun items => { d.restyled v with items }) hitems.symm

theorem modifyClass_restyled (id : ItemId) {f : ClassInfo → ClassInfo}
    (h : ∀ info : ClassInfo, f (info.restyled v) = (f info).restyled v) :
    (d.restyled v).modifyClass id f = (d.modifyClass id f).restyled v := by
  refine d.modifyPayload_restyled v id fun payload => ?_
  cases payload with
  | ofClass info => exact congrArg Payload.ofClass (h info)
  | _ => rfl

theorem listInPackage_restyled (package classId : ItemId) :
    (d.restyled v).listInPackage package classId = (d.listInPackage package classId).restyled v :=
  d.modifyPayload_restyled v package fun payload => by cases payload <;> rfl

theorem pushPackage_restyled (name : String) (flags : ItemFlags) (isStub : Bool) :
    (d.restyled v).pushPackage name (flags.recast v.toRecast) isStub =
      (d.pushPackage name flags isStub).restyled v := by
  have hpublic : (Modifiers.ofVisibility .publicAccess).recast v.toRecast = .ofVisibility .publicAccess := by
    simp only [Modifiers.recast, Modifiers.ofVisibility, v.facet_false]
  have hpush := d.push_restyled v none (.ofVisibility .publicAccess) flags (!isStub) (.package { name })
  rw [hpublic] at hpush
  unfold pushPackage
  rw [nextId_restyled]
  exact congrArg (fun d' : Draft => { d' with packages := d.packages.insert name d.nextId }) hpush

theorem pushParameters_restyled (method : ItemId) (position : Nat) (specs : List ParameterSpec) :
    (d.restyled v).pushParameters method position (specs.map (·.restyled v)) =
      (d.pushParameters method position specs).restyled v := by
  have hflags : ({} : ItemFlags).recast v.toRecast = {} := by simp only [ItemFlags.recast, v.docOnly_false]
  induction specs generalizing d position with
  | nil => rfl
  | cons spec rest ih =>
    have hpush := d.push_restyled v (some method) spec.modifiers {} true
      (.parameter
        { name := spec.name
          type := spec.type
          hasDefault := spec.hasDefault
          isVarargs := spec.isVarargs || spec.type.isVarargs
          position })
    rw [hflags] at hpush
    rw [List.map_cons, pushParameters, pushParameters, ← ih, ← hpush]
    simp only [ParameterSpec.restyled, Payload.restyled, ParameterInfo.restyled, v.varargs_or]

theorem pushMethod_restyled (owner : ItemId) (info : ClassInfo) (isConstructor : Bool) (spec : MethodSpec) :
    (d.restyled v).pushMethod owner (info.restyled v) isConstructor (spec.restyled v) =
      (d.pushMethod owner info isConstructor spec).restyled v := by
  unfold pushMethod
  rw [nextId_restyled]
  dsimp only
  rw [← modifyClass_restyled, ← pushParameters_restyled, ← push_restyled]
  · cases isConstructor <;> simp only [MethodSpec.restyled, List.length_map] <;> rfl
  · intro info
    split <;> rfl

theorem pushField_restyled (owner : ItemId) (spec : FieldSpec) :
    (d.restyled v).pushField owner (spec.restyled v) = (d.pushField owner spec).restyled v := by
  unfold pushField
  rw [nextId_restyled]
  dsimp only
  rw [← modifyClass_restyled, ← push_restyled]
  · rfl
  · exact fun _ => rfl

theorem pushClass_restyled (package : ItemId) (outer : Option ItemId) (spec : ClassSpec) :
    (d.restyled v).pushClass package outer (spec.restyled v) =
      (d.pushClass package outer spec).restyled v := by
  rcases spec with ⟨name, kind, modifiers, flags, isStub, superclass, interfaces, typeParameters,
    constructors, methods, fields, nested⟩
  let spec : ClassSpec := ⟨name, kind, modifiers, flags, isStub, superclass, interfaces, typeParameters,
    constructors, methods, fields, nested⟩
  have hpush := d.push_restyled v (some (outer.getD package)) modifiers flags (!isStub)
    (.ofClass (emptyClass package outer spec))
  let indexed (d' : Draft) : Draft :=
    { d' with classes := d.classes.insert (Text.trimmed name) d.nextId }
  let pushed := indexed (d.push (some (outer.getD package)) modifiers flags (!isStub)
    (.ofClass (emptyClass package outer spec)))
  have hlisted := (congrArg (fun d' => (indexed d').listInPackage package d.nextId) hpush).trans
    (pushed.listInPackage_restyled v package d.nextId)
  unfold pushClass
  rw [nextId_restyled]
  cases outer with
  | none => exact hlisted
  | some outer =>
    exact (congrArg (·.modifyClass outer fun info => { info with nested := info.nested ++ [d.nextId] })
      hlisted).trans (modifyClass_restyled v _ outer fun _ => rfl)

end Draft

/-! ## Additions -/

theorem ClassSpec.restyledEach_eq (specs : List ClassSpec) :
    restyledEach v specs = specs.map (·.restyled v) := by
  induction specs with
  | nil => rw [restyledEach, List.map_nil]
  | cons spec rest ih => rw [restyledEach, List.map_cons, ih]

theorem forall₂_map_self (f : α → β) (l : List α) : List.Forall₂ (fun x y => y = f x) l (l.map f) :=
  List.forall₂_map_right_iff.mpr (List.forall₂_same.mpr fun _ _ => rfl)

def Restyling.coupling : Coupling where
  Drafts d d' := d' = d.restyled v
  Flags flags flags' := flags' = flags.recast v.toRecast
  Methods spec spec' := spec' = spec.restyled v
  Fields spec spec' := spec' = spec.restyled v
  Classes spec spec' := spec' = spec.restyled v
  nextId := by
    rintro d _ rfl
    exact d.nextId_restyled v
  packages := by
    rintro d _ rfl
    rfl
  classes := by
    rintro d _ rfl
    rfl
  packageInfo := by
    rintro d _ rfl
    exact d.packageInfo_restyled v
  classInfo := by
    rintro d _ rfl id
    rw [d.classInfo_restyled]
    cases d.classInfo id <;> rfl
  method_name := by
    rintro spec _ rfl
    rfl
  field_name := by
    rintro spec _ rfl
    rfl
  class_name := by
    rintro ⟨⟩ _ rfl
    rw [ClassSpec.restyled]
  constructors := by
    rintro ⟨⟩ _ rfl
    rw [ClassSpec.restyled]
    exact forall₂_map_self _ _
  methods := by
    rintro ⟨⟩ _ rfl
    rw [ClassSpec.restyled]
    exact forall₂_map_self _ _
  fields := by
    rintro ⟨⟩ _ rfl
    rw [ClassSpec.restyled]
    exact forall₂_map_self _ _
  nested := by
    rintro ⟨⟩ _ rfl
    rw [ClassSpec.restyled, ClassSpec.restyledEach_eq]
    exact forall₂_map_self _ _
  pushPackage := by
    rintro d _ flags _ rfl name rfl isStub
    exact d.pushPackage_restyled v name flags isStub
  pushClass := by
    rintro d _ spec _ rfl package outer rfl
    exact d.pushClass_restyled v package outer spec
  pushMethod := by
    rintro d _ owner info info' spec _ rfl hinfo hinfo' isConstructor rfl
    rw [d.classInfo_restyled, hinfo] at hinfo'
    cases hinfo'
    exact d.pushMethod_restyled v owner info isConstructor spec
  pushField := by
    rintro d _ spec _ rfl owner rfl
    exact d.pushField_restyled v owner spec

namespace Addition

/-- The second addition does to the restyled draft what the first one does to the draft. -/
def Restyles (v : Restyling) (a a' : Addition α) : Prop :=
  ∀ d : Draft, (d.restyled v).add a' = ((d.add a).1, (d.add a).2.restyled v)

theorem restyles_iff {a a' : Addition α} : Restyles v a a' ↔ v.coupling.Couples a a' := by
  constructor
  · rintro h d _ rfl
    rw [h d]
    exact ⟨rfl, rfl⟩
  · exact fun h d => Prod.ext (h d _ rfl).1 (h d _ rfl).2

theorem each_restyles {add : α → Addition ItemId} {restyled : α → α}
    (h : ∀ x, Restyles v (add x) (add (restyled x))) (specs : List α) :
    Restyles v (each add specs) (each add (specs.map restyled)) := by
  refine (restyles_iff v).mpr (Coupling.Couples.each (R := fun x y => y = restyled x) ?_
    (forall₂_map_self restyled specs))
  rintro x _ rfl
  exact (restyles_iff v).mp (h x)

theorem package_restyles (name : String) (flags : ItemFlags) (isStub : Bool) :
    Restyles v (package name flags isStub) (package name (flags.recast v.toRecast) isStub) :=
  (restyles_iff v).mpr (Coupling.package name rfl isStub)

theorem constructor_restyles (owner : ItemId) (spec : MethodSpec) :
    Restyles v (constructor owner spec) (constructor owner (spec.restyled v)) :=
  (restyles_iff v).mpr (Coupling.constructor owner rfl)

theorem method_restyles (owner : ItemId) (spec : MethodSpec) :
    Restyles v (method owner spec) (method owner (spec.restyled v)) :=
  (restyles_iff v).mpr (Coupling.method owner rfl)

theorem field_restyles (owner : ItemId) (spec : FieldSpec) :
    Restyles v (field owner spec) (field owner (spec.restyled v)) :=
  (restyles_iff v).mpr (Coupling.field owner rfl)

theorem topLevelClass_restyles (package : ItemId) (spec : ClassSpec) :
    Restyles v (topLevelClass package spec) (topLevelClass package (spec.restyled v)) :=
  (restyles_iff v).mpr (Coupling.topLevelClass package rfl)

theorem nestedClass_restyles (outer : ItemId) (spec : ClassSpec) :
    Restyles v (nestedClass outer spec) (nestedClass outer (spec.restyled v)) :=
  (restyles_iff v).mpr (Coupling.nestedClass outer rfl)

theorem packageSpec_restyles (spec : PackageSpec) :
    Restyles v (packageSpec spec) (packageSpec (spec.restyled v)) :=
  (restyles_iff v).mpr (Coupling.packageSpec rfl rfl rfl (forall₂_map_self _ spec.classes))

end Addition

/-! ## Recipes -/

def BuildCall.restyled (v : Restyling) : BuildCall → BuildCall
  | .package name flags isStub => .package name (flags.recast v.toRecast) isStub
  | .packageSpec spec => .packageSpec (spec.restyled v)
  | .topLevelClass id spec => .topLevelClass id (spec.restyled v)
  | .nestedClass outer spec => .nestedClass outer (spec.restyled v)
  | .constructor owner spec => .constructor owner (spec.restyled v)
  | .method owner spec => .method owner (spec.restyled v)
  | .field owner spec => .field owner (spec.restyled v)

theorem BuildCall.restyles (v : Restyling) (call : BuildCall) :
    Addition.Restyles v call.addition (call.restyled v).addition := by
  cases call with
  | package name flags isStub => exact Addition.package_restyles v name flags isStub
  | packageSpec spec => exact Addition.packageSpec_restyles v spec
  | topLevelClass id spec => exact Addition.topLevelClass_restyles v id spec
  | nestedClass outer spec => exact Addition.nestedClass_restyles v outer spec
  | constructor owner spec => exact Addition.constructor_restyles v owner spec
  | method owner spec => exact Addition.method_restyles v owner spec
  | field owner spec => exact Addition.field_restyles v owner spec

namespace Recipe

def restyled (r : Recipe) (v : Restyling) : Recipe := { r with calls := r.calls.map (·.restyled v) }

/-- A restyled recipe makes the restyled draft. -/
theorem draft_restyled (r : Recipe) (v : Restyling) (location : String) :
    (r.restyled v).draft (v.location location) = (r.draft location).restyled v := by
  have hcalls : ∀ (calls : List BuildCall) (d : Draft),
      (calls.map (·.restyled v)).foldl (fun d call => (d.add call.addition).2) (d.restyled v) =
        (calls.foldl (fun d call => (d.add call.addition).2) d).restyled v := by
    intro calls
    induction calls with
    | nil => exact fun _ => rfl
    | cons call rest ih =>
      intro d
      rw [List.map_cons, List.foldl_cons, List.foldl_cons, call.restyles v d, ih]
  have hempty : ({ location, isPartial := r.isPartial } : Draft).restyled v =
      { location := v.location location, isPartial := r.isPartial } :=
    congrArg (fun items => ({ location := v.location location, isPartial := r.isPartial, items } : Draft))
      Array.map_empty
  have hdraft := hcalls r.calls { location, isPartial := r.isPartial }
  rwa [hempty] at hdraft

end Recipe

end ApiSurface
