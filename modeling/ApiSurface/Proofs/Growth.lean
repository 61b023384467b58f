import ApiSurface.Proofs.Additions
import ApiSurface.Proofs.Arena

/-! # Drafts stay well formed

Every addition, whether it fails or not, leaves a well-formed draft whose items begin with the ones that
were there before. -/
namespace ApiSurface

open Arena

variable {α β : Type}

namespace Draft

variable {d d' : Draft}

def shapes (d : Draft) : List Shape := Arena.shapes d.items

/-- What an addition does to a well-formed draft: it keeps the invariant and the items there are. -/
structure Grows (d d' : Draft) : Prop where
  wellFormed : d'.WellFormed
  kept : d.shapes <+: d'.shapes

theorem Grows.refl (h : d.WellFormed) : Grows d d := ⟨h, List.prefix_rfl⟩

theorem Grows.trans {d'' : Draft} (h : Grows d d') (h' : Grows d' d'') : Grows d d'' :=
  ⟨h'.wellFormed, h.kept.trans h'.kept⟩

theorem Grows.packageAt (h : Grows d d') {id : ItemId} (hp : PackageAt d.shapes id) :
    PackageAt d'.shapes id := by
  obtain ⟨ext, he⟩ := h.kept
  rw [← he]
  exact hp.append ext

theorem Grows.classAt (h : Grows d d') {id package : ItemId} (hc : ClassAt d.shapes id package) :
    ClassAt d'.shapes id package := by
  obtain ⟨ext, he⟩ := h.kept
  rw [← he]
  exact hc.append ext

/-! ## Updates of a draft -/

def linkInfo (slot : Slot) (id : ItemId) (info : ClassInfo) : ClassInfo :=
  match slot with
  | .constructors => { info with constructors := info.constructors ++ [id] }
  | .methods => { info with methods := info.methods ++ [id] }
  | .fields => { info with fields := info.fields ++ [id] }
  | .nested => { info with nested := info.nested ++ [id] }
  | .classes | .parameters => info

def linkClass (slot : Slot) (id : ItemId) (item : Item) : Item :=
  { item with
    payload := match item.payload with
      | .ofClass info => .ofClass (linkInfo slot id info)
      | other => other }

def linkPackage (id : ItemId) (item : Item) : Item :=
  { item with
    payload := match item.payload with
      | .package info => .package { info with classes := info.classes ++ [id] }
      | other => other }

theorem links_linkClass (slot : Slot) (id : ItemId) (h : slot ≠ .classes) (h' : slot ≠ .parameters) :
    Links (linkClass slot id) slot id where
  shape item := by
    unfold linkClass Item.shape
    cases item.payload with
    | ofClass info => cases slot <;> rfl
    | _ => rfl
  slot item other := by
    unfold linkClass
    cases item.payload <;> cases slot <;> first | contradiction | cases other <;> rfl

theorem links_linkPackage (id : ItemId) : Links (linkPackage id) .classes id where
  shape item := by
    unfold linkPackage Item.shape
    cases item.payload <;> rfl
  slot item other := by
    unfold linkPackage
    cases item.payload <;> cases other <;> rfl

def nextItem (d : Draft) (parent : Option ItemId) (modifiers : Modifiers) (flags : ItemFlags)
    (isEmitted : Bool) (payload : Payload) : Item :=
  { parent, rank := d.items.size, modifiers, flags := flags.declared, isEmitted, payload }

def classItem (d : Draft) (package : ItemId) (outer : Option ItemId) (spec : ClassSpec) : Item :=
  d.nextItem (some (outer.getD package)) spec.modifiers spec.flags (!spec.isStub)
    (.ofClass (emptyClass package outer spec))

theorem pushClass_items (d : Draft) (package : ItemId) (outer : Option ItemId) (spec : ClassSpec) :
    (d.pushClass package outer spec).items =
      withClass d.items (d.classItem package outer spec) package (linkPackage d.nextId) outer
        (linkClass .nested d.nextId) := by
  cases outer with
  | none => rfl
  | some outer => rfl

/-- A new class changes the items and is found by its name. -/
theorem pushClass_eq (d : Draft) (package : ItemId) (outer : Option ItemId) (spec : ClassSpec) :
    d.pushClass package outer spec =
      { d with
        items := (d.pushClass package outer spec).items
        classes := d.classes.insert (Text.trimmed spec.name) d.nextId } := by
  cases outer <;> rfl

theorem classes_pushClass (d : Draft) (package : ItemId) (outer : Option ItemId) (spec : ClassSpec) :
    (d.pushClass package outer spec).classes = d.classes.insert (Text.trimmed spec.name) d.nextId := by
  rw [pushClass_eq]

theorem slot_emptyClass (package : ItemId) (outer : Option ItemId) (spec : ClassSpec) (slot : Slot) :
    (Payload.ofClass (emptyClass package outer spec)).slot slot = [] := by
  cases slot <;> rfl

theorem pushClass_grows (h : d.WellFormed) {package : ItemId} {outer : Option ItemId}
    {spec : ClassSpec} (hpackage : PackageAt d.shapes package)
    (houter : ∀ o, outer = some o → ClassAt d.shapes o package)
    (hname : d.classes.contains (Text.trimmed spec.name) = false) :
    Grows d (d.pushClass package outer spec) ∧
      ClassAt (d.pushClass package outer spec).shapes d.nextId package := by
  have hp := links_linkPackage d.nextId
  have ho := links_linkClass .nested d.nextId Slot.noConfusion Slot.noConfusion
  have hs : (d.pushClass package outer spec).shapes =
      d.shapes ++ [(d.classItem package outer spec).shape] := by
    unfold Draft.shapes
    rw [pushClass_items, shapes_withClass _ _ _ hp ho]
  have hpackages : (d.pushClass package outer spec).packages = d.packages := by
    rw [pushClass_eq]
  have hnone : d.classes[Text.trimmed spec.name]? = none := by
    rw [Std.TreeMap.getElem?_eq_none_of_contains_eq_false hname]
  refine ⟨⟨?_, hs ▸ List.prefix_append _ _⟩, Text.trimmed spec.name, outer, ?_⟩
  · unfold Draft.WellFormed at h ⊢
    rw [pushClass_items, hpackages, classes_pushClass]
    exact h.withClass rfl (slot_emptyClass package outer spec) hnone hpackage houter hp ho
  · rw [hs, roleAt_concat, Draft.shapes, shapes_length, nextId]
    exact if_pos rfl

/-- The parameters that a method takes, from the given position on, as items. -/
def parameterItems (method : ItemId) (rank : Nat) : Nat → List ParameterSpec → List Item
  | _, [] => []
  | position, spec :: rest =>
    { parent := some method
      rank
      modifiers := spec.modifiers
      flags := ({} : ItemFlags).declared
      isEmitted := true
      payload := .parameter
        { name := spec.name
          type := spec.type
          hasDefault := spec.hasDefault
          isVarargs := spec.isVarargs || spec.type.isVarargs
          position } } :: parameterItems method (rank + 1) (position + 1) rest

theorem pushParameters_items (d : Draft) (method : ItemId) (position : Nat)
    (specs : List ParameterSpec) : (d.pushParameters method position specs).items =
      d.items ++ (parameterItems method d.items.size position specs).toArray := by
  induction specs generalizing d position with
  | nil => exact (Array.append_empty).symm
  | cons spec rest ih =>
    rw [pushParameters, ih, push, parameterItems]
    simp

/-- New parameters change nothing but the items. -/
theorem pushParameters_eq (d : Draft) (method : ItemId) (position : Nat) (specs : List ParameterSpec) :
    d.pushParameters method position specs =
      { d with items := (d.pushParameters method position specs).items } := by
  induction specs generalizing d position with
  | nil => rfl
  | cons spec rest ih => exact ih _ _

theorem length_parameterItems (method : ItemId) (rank position : Nat) (specs : List ParameterSpec) :
    (parameterItems method rank position specs).length = specs.length := by
  induction specs generalizing rank position with
  | nil => rfl
  | cons spec rest ih => rw [parameterItems, List.length_cons, List.length_cons, ih]

theorem shapes_parameterItems (method : ItemId) (specs : List ParameterSpec) :
    (parameterItems method (method.index + 1) 0 specs).map Item.shape =
      parameterShapes method specs.length := by
  have h : ∀ rank position, (parameterItems method rank position specs).map Item.shape =
      (List.range specs.length).map fun k =>
        { parent := some method, rank := rank + k, role := .parameter (position + k) } := by
    induction specs with
    | nil => intro rank position; rfl
    | cons spec rest ih =>
      intro rank position
      rw [parameterItems, List.map_cons, ih, List.length_cons, List.range_succ_eq_map,
        List.map_cons, List.map_map]
      simp only [Function.comp_def, Nat.succ_eq_add_one, Nat.add_assoc, Nat.add_comm 1]
      rfl
  rw [h]
  simp only [parameterShapes, Nat.zero_add]

def methodPayload (d : Draft) (ownerInfo : ClassInfo) (isConstructor : Bool) (spec : MethodSpec) :
    Payload :=
  let info : MethodInfo :=
    { name := if isConstructor && spec.name == "" then ownerInfo.simpleName else spec.name
      returnType := if isConstructor then none else spec.returnType
      parameters := (List.range spec.parameters.length).map fun i => ⟨d.items.size + 1 + i⟩
      throws := spec.throws
      typeParameters := spec.typeParameters
      property := spec.property
      annotationDefault := spec.annotationDefault }
  if isConstructor then .constructor info else .method info

/-- The list of a class that a method or a constructor belongs in. -/
def methodSlot (isConstructor : Bool) : Slot := if isConstructor then .constructors else .methods

def methodItem (d : Draft) (owner : ItemId) (ownerInfo : ClassInfo) (isConstructor : Bool)
    (spec : MethodSpec) : Item :=
  d.nextItem (some owner) spec.modifiers spec.flags (!spec.isStub)
    (d.methodPayload ownerInfo isConstructor spec)

theorem pushMethod_items (d : Draft) (owner : ItemId) (info : ClassInfo) (isConstructor : Bool)
    (spec : MethodSpec) : (d.pushMethod owner info isConstructor spec).items =
      withMember d.items (d.methodItem owner info isConstructor spec)
        (parameterItems d.nextId (d.items.size + 1) 0 spec.parameters) owner
        (linkClass (methodSlot isConstructor) d.nextId) := by
  have h := pushParameters_items (d.push (some owner) spec.modifiers spec.flags (!spec.isStub)
    (d.methodPayload info isConstructor spec)) d.nextId 0 spec.parameters
  have hsize : (d.push (some owner) spec.modifiers spec.flags (!spec.isStub)
      (d.methodPayload info isConstructor spec)).items.size = d.items.size + 1 := by
    simp [push]
  rw [hsize] at h
  cases isConstructor with
  | true => exact congrArg (Array.modify · owner.index (linkClass .constructors d.nextId)) h
  | false => exact congrArg (Array.modify · owner.index (linkClass .methods d.nextId)) h

/-- A new method changes nothing but the items. -/
theorem pushMethod_eq (d : Draft) (owner : ItemId) (info : ClassInfo) (isConstructor : Bool)
    (spec : MethodSpec) : d.pushMethod owner info isConstructor spec =
      { d with items := (d.pushMethod owner info isConstructor spec).items } :=
  congrArg
    (fun pushed : Draft => pushed.modifyClass owner fun info =>
      if isConstructor then { info with constructors := info.constructors ++ [d.nextId] }
      else { info with methods := info.methods ++ [d.nextId] })
    (pushParameters_eq (d.push (some owner) spec.modifiers spec.flags (!spec.isStub)
      (d.methodPayload info isConstructor spec)) d.nextId 0 spec.parameters)

theorem links_linkMethod (isConstructor : Bool) (id : ItemId) :
    Links (linkClass (methodSlot isConstructor) id) (methodSlot isConstructor) id := by
  refine links_linkClass _ _ ?_ ?_
  all_goals cases isConstructor <;> exact Slot.noConfusion

theorem role_methodItem (d : Draft) (owner : ItemId) (info : ClassInfo) (isConstructor : Bool)
    (spec : MethodSpec) :
    MemberRole (d.methodItem owner info isConstructor spec).payload.role (methodSlot isConstructor) := by
  cases isConstructor
  · exact .method
  · exact .constructor

/-- The parameters of a new method stand behind it. -/
theorem shapes_newParameters (d : Draft) (specs : List ParameterSpec) :
    (parameterItems d.nextId (d.items.size + 1) 0 specs).map Item.shape =
      parameterShapes ⟨d.items.size⟩ (parameterItems d.nextId (d.items.size + 1) 0 specs).length := by
  rw [length_parameterItems]
  exact shapes_parameterItems d.nextId specs

theorem pushMethod_grows (h : d.WellFormed) {owner package : ItemId}
    (hc : ClassAt d.shapes owner package)
    (info : ClassInfo) (isConstructor : Bool) (spec : MethodSpec) :
    Grows d (d.pushMethod owner info isConstructor spec) := by
  have hlink := links_linkMethod isConstructor d.nextId
  have hps := shapes_newParameters d spec.parameters
  constructor
  · unfold Draft.WellFormed
    have hp : (d.pushMethod owner info isConstructor spec).packages = d.packages := by
      rw [pushMethod_eq]
    have hc' : (d.pushMethod owner info isConstructor spec).classes = d.classes := by
      rw [pushMethod_eq]
    rw [pushMethod_items, hp, hc']
    refine WellFormed.withMember h hc rfl rfl (role_methodItem d owner info isConstructor spec) hlink
      hps ?_
    rw [length_parameterItems]
    cases isConstructor <;> rfl
  · unfold Draft.shapes
    rw [pushMethod_items, shapes_withMember _ _ hlink hps]
    exact List.prefix_append _ _

def fieldItem (d : Draft) (owner : ItemId) (spec : FieldSpec) : Item :=
  d.nextItem (some owner) spec.modifiers spec.flags (!spec.isStub)
    (.field
      { name := spec.name
        type := spec.type
        value := spec.value
        isEnumConstant := spec.isEnumConstant })

theorem pushField_items (d : Draft) (owner : ItemId) (spec : FieldSpec) :
    (d.pushField owner spec).items =
      withMember d.items (d.fieldItem owner spec) [] owner (linkClass .fields d.nextId) := by
  rw [withMember, Array.append_empty]
  rfl

theorem pushField_grows (h : d.WellFormed) {owner package : ItemId}
    (hc : ClassAt d.shapes owner package) (spec : FieldSpec) : Grows d (d.pushField owner spec) := by
  have hlink := links_linkClass .fields d.nextId Slot.noConfusion Slot.noConfusion
  constructor
  · unfold Draft.WellFormed
    rw [pushField_items]
    exact WellFormed.withMember h hc rfl rfl .field hlink rfl rfl
  · unfold Draft.shapes
    rw [pushField_items, shapes_withMember _ _ hlink rfl]
    exact List.prefix_append _ _

theorem pushPackage_grows (h : d.WellFormed) {name : String} (flags : ItemFlags) (isStub : Bool)
    (hname : d.packages[name]? = none) : Grows d (d.pushPackage name flags isStub) := by
  constructor
  · refine WellFormed.withPackage h (d.nextItem none (.ofVisibility .publicAccess) flags
      (!isStub) (.package { name })) rfl ?_ hname
    intro slot
    cases slot <;> rfl
  · have hs := shapes_push d.items (d.nextItem none (.ofVisibility .publicAccess) flags (!isStub)
      (.package { name }))
    exact ⟨_, hs.symm⟩

/-! ## Additions -/

theorem packageInfo_ok {id : ItemId} {info : PackageInfo} (h : d.packageInfo id = .ok info) :
    PackageAt d.shapes id := by
  unfold packageInfo at h
  refine ⟨info.name, ?_⟩
  rw [roleAt, shapes, getElem?_shapes]
  cases hi : d.items[id.index]? with
  | none => rw [hi] at h; cases h
  | some item =>
    simp only [hi] at h
    split at h
    · next hp =>
      cases h
      simp [Item.shape, hp, Payload.role]
    · cases h

theorem classInfo_ok {id : ItemId} {info : ClassInfo} (h : d.classInfo id = .ok info) :
    ClassAt d.shapes id info.package := by
  unfold classInfo at h
  refine ⟨info.qualifiedName, info.outer, ?_⟩
  rw [roleAt, shapes, getElem?_shapes]
  cases hi : d.items[id.index]? with
  | none => rw [hi] at h; cases h
  | some item =>
    simp only [hi] at h
    split at h
    · next hp =>
      cases h
      simp [Item.shape, hp, Payload.role]
    · cases h

/-- A sequence of additions grows the draft if each of them does. -/
theorem Grows.bind {a : Addition α} {f : α → Addition β} (ha : Grows d (d.add a).2)
    (hf : ∀ x d', d.add a = (.ok x, d') → Grows d d' → Grows d' (d'.add (f x)).2) :
    Grows d (d.add (a >>= f)).2 := by
  rcases hr : d.add a with ⟨fault | x, d'⟩
  · rw [add_bind_error hr]
    rwa [hr] at ha
  · rw [add_bind_ok hr]
    rw [hr] at ha
    exact ha.trans (hf x d' hr ha)

theorem package_grows (h : d.WellFormed) (name : String) (flags : ItemFlags) (isStub : Bool) :
    Grows d (d.add (Addition.package name flags isStub)).2 := by
  rw [add_package]
  split
  · exact .refl h
  · cases hn : d.packages[name]? with
    | some id => exact .refl h
    | none => exact pushPackage_grows h flags isStub hn

theorem constructor_grows (h : d.WellFormed) (owner : ItemId) (spec : MethodSpec) :
    Grows d (d.add (Addition.constructor owner spec)).2 := by
  rw [add_constructor]
  cases hc : d.classInfo owner with
  | ok info => exact pushMethod_grows h (classInfo_ok hc) info true spec
  | error fault => exact .refl h

theorem method_grows (h : d.WellFormed) (owner : ItemId) (spec : MethodSpec) :
    Grows d (d.add (Addition.method owner spec)).2 := by
  rw [add_method]
  split
  · exact .refl h
  · cases hc : d.classInfo owner with
    | ok info => exact pushMethod_grows h (classInfo_ok hc) info false spec
    | error fault => exact .refl h

theorem field_grows (h : d.WellFormed) (owner : ItemId) (spec : FieldSpec) :
    Grows d (d.add (Addition.field owner spec)).2 := by
  rw [add_field]
  split
  · exact .refl h
  · cases hc : d.classInfo owner with
    | ok info => exact pushField_grows h (classInfo_ok hc) spec
    | error fault => exact .refl h

/-- The class without members is there when its addition succeeds. -/
theorem classHead_grows (h : d.WellFormed) {package : ItemId} {outer : Option ItemId}
    (hpackage : PackageAt d.shapes package)
    (houter : ∀ o, outer = some o → ClassAt d.shapes o package) (spec : ClassSpec) :
    Grows d (d.add (Addition.classHead package outer spec)).2 ∧
      ∀ id d', d.add (Addition.classHead package outer spec) = (.ok id, d') →
        ClassAt d'.shapes id package := by
  rw [add_classHead]
  split
  · exact ⟨.refl h, fun id d' he => by cases he⟩
  · split
    · exact ⟨.refl h, fun id d' he => by cases he⟩
    · next hname =>
      obtain ⟨hg, hc⟩ := pushClass_grows h hpackage houter (Bool.not_eq_true _ ▸ hname)
      refine ⟨hg, fun id d' he => ?_⟩
      cases he
      exact hc

theorem each_grows {add : α → Addition ItemId}
    (hadd : ∀ (d : Draft) x, d.WellFormed → Grows d (d.add (add x)).2) (h : d.WellFormed)
    (specs : List α) : Grows d (d.add (Addition.each add specs)).2 := by
  induction specs generalizing d with
  | nil => exact .refl h
  | cons spec rest ih => exact (hadd d spec h).bind fun _ d' _ hg => ih hg.wellFormed

mutual
theorem classIn_grows {d : Draft} (h : d.WellFormed) {package : ItemId} {outer : Option ItemId}
    (hpackage : PackageAt d.shapes package)
    (houter : ∀ o, outer = some o → ClassAt d.shapes o package) : (spec : ClassSpec) →
    Grows d (d.add (Addition.classIn package outer spec)).2
  | ⟨name, kind, modifiers, flags, isStub, superclass, interfaces, typeParameters, constructors,
      methods, fields, nested⟩ => by
    rw [Addition.classIn]
    obtain ⟨hhead, hclass⟩ := classHead_grows h hpackage houter
      ⟨name, kind, modifiers, flags, isStub, superclass, interfaces, typeParameters, constructors,
        methods, fields, nested⟩
    refine hhead.bind fun id d₁ hr h₁ => ?_
    have hc := hclass id d₁ hr
    refine (each_grows (fun d x h => constructor_grows h id x) h₁.wellFormed _).bind
      fun _ d₂ _ h₂ => ?_
    refine (each_grows (fun d x h => method_grows h id x) h₂.wellFormed _).bind fun _ d₃ _ h₃ => ?_
    refine (each_grows (fun d x h => field_grows h id x) h₃.wellFormed _).bind fun _ d₄ _ h₄ => ?_
    have hg := h₁.trans (h₂.trans (h₃.trans h₄))
    have hc₄ := h₄.classAt (h₃.classAt (h₂.classAt hc))
    refine (classesIn_grows h₄.wellFormed (hg.packageAt hpackage) hc₄ nested).bind fun _ d₅ _ h₅ => ?_
    exact .refl h₅.wellFormed

theorem classesIn_grows {d : Draft} (h : d.WellFormed) {package outer : ItemId}
    (hpackage : PackageAt d.shapes package) (houter : ClassAt d.shapes outer package) :
    (specs : List ClassSpec) → Grows d (d.add (Addition.classesIn package outer specs)).2
  | [] => by
    rw [Addition.classesIn]
    exact .refl h
  | spec :: rest => by
    rw [Addition.classesIn]
    refine (classIn_grows h hpackage houter.of_some spec).bind fun _ d' _ hg => ?_
    exact classesIn_grows hg.wellFormed (hg.packageAt hpackage) (hg.classAt houter) rest
end

theorem topLevelClass_grows (h : d.WellFormed) (package : ItemId) (spec : ClassSpec) :
    Grows d (d.add (Addition.topLevelClass package spec)).2 := by
  rw [add_topLevelClass]
  cases hp : d.packageInfo package with
  | ok info => exact classIn_grows h (packageInfo_ok hp) (fun o he => by cases he) spec
  | error fault => exact .refl h

/-- The package of a class that is there is there too. -/
theorem WellFormed.package_of_classAt (h : d.WellFormed) {id package : ItemId}
    (hc : ClassAt d.shapes id package) : PackageAt d.shapes package := by
  obtain ⟨name, outer, hr⟩ := hc
  obtain ⟨shape, hs, hrole⟩ := Option.map_eq_some_iff.mp hr
  have hp := (h.placed id.index shape hs).2
  rw [hrole] at hp
  exact hp.2.2.1

theorem nestedClass_grows (h : d.WellFormed) (outer : ItemId) (spec : ClassSpec) :
    Grows d (d.add (Addition.nestedClass outer spec)).2 := by
  rw [add_nestedClass]
  cases hc : d.classInfo outer with
  | ok info =>
    have hclass := classInfo_ok hc
    exact classIn_grows h (h.package_of_classAt hclass) hclass.of_some spec
  | error fault => exact .refl h

theorem packageSpec_grows (h : d.WellFormed) (spec : PackageSpec) :
    Grows d (d.add (Addition.packageSpec spec)).2 := by
  refine (package_grows h spec.name spec.flags spec.isStub).bind fun id d₁ _ h₁ => ?_
  refine (each_grows (fun d x h => topLevelClass_grows h id x) h₁.wellFormed _).bind
    fun _ d₂ _ h₂ => ?_
  exact .refl h₂.wellFormed

end Draft

end ApiSurface
