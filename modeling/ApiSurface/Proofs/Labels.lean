import ApiSurface.Proofs.CoupledAdditions

/-! # Labels

A draft carries the label of the surface that it is to become: where that comes from, and whether its
format is a partial one. No addition reads the label, so what one and the same calls declare is the same
under every label. -/
namespace ApiSurface

variable {α : Type}

def Draft.labelled (d : Draft) (location : String) (isPartial : Bool) : Draft :=
  { d with location, isPartial }

namespace Draft

variable (d : Draft) (location : String) (isPartial : Bool)

theorem modifyClass_labelled (id : ItemId) (f : ClassInfo → ClassInfo) :
    (d.labelled location isPartial).modifyClass id f = (d.modifyClass id f).labelled location isPartial := rfl

theorem pushParameters_labelled (method : ItemId) (position : Nat) (specs : List ParameterSpec) :
    (d.labelled location isPartial).pushParameters method position specs =
      (d.pushParameters method position specs).labelled location isPartial := by
  induction specs generalizing d position with
  | nil => rfl
  | cons spec rest ih =>
    rw [pushParameters, pushParameters, ← ih]
    rfl

theorem pushMethod_labelled (owner : ItemId) (info : ClassInfo) (isConstructor : Bool) (spec : MethodSpec) :
    (d.labelled location isPartial).pushMethod owner info isConstructor spec =
      (d.pushMethod owner info isConstructor spec).labelled location isPartial := by
  unfold pushMethod
  dsimp only
  rw [← modifyClass_labelled, ← pushParameters_labelled]
  rfl

theorem pushClass_labelled (package : ItemId) (outer : Option ItemId) (spec : ClassSpec) :
    (d.labelled location isPartial).pushClass package outer spec =
      (d.pushClass package outer spec).labelled location isPartial := by
  cases outer <;> rfl

end Draft

/-- A draft corresponds to the draft under another label, and every spec to itself. -/
def labelling (location : String) (isPartial : Bool) : Coupling where
  Drafts d d' := d' = d.labelled location isPartial
  Flags := Eq
  Methods := Eq
  Fields := Eq
  Classes := Eq
  nextId := by
    rintro d _ rfl
    rfl
  packages := by
    rintro d _ rfl
    rfl
  classes := by
    rintro d _ rfl
    rfl
  packageInfo := by
    rintro d _ rfl id
    rfl
  classInfo := by
    rintro d _ rfl id
    rfl
  method_name h := h ▸ rfl
  field_name h := h ▸ rfl
  class_name h := h ▸ rfl
  constructors h := h ▸ List.forall₂_same.mpr fun _ _ => rfl
  methods h := h ▸ List.forall₂_same.mpr fun _ _ => rfl
  fields h := h ▸ List.forall₂_same.mpr fun _ _ => rfl
  nested h := h ▸ List.forall₂_same.mpr fun _ _ => rfl
  pushPackage := by
    rintro d _ flags _ rfl name rfl isStub
    rfl
  pushClass := by
    rintro d _ spec _ rfl package outer rfl
    exact d.pushClass_labelled location isPartial package outer spec
  pushMethod := by
    rintro d _ owner info info' spec _ rfl hinfo hinfo' isConstructor rfl
    cases hinfo.symm.trans hinfo'
    exact d.pushMethod_labelled location isPartial owner info isConstructor spec
  pushField := by
    rintro d _ spec _ rfl owner rfl
    rfl

namespace Addition

/-- The addition does the same under every label. -/
def Overlooks (a : Addition α) : Prop :=
  ∀ (d : Draft) (location : String) (isPartial : Bool), (d.labelled location isPartial).add a =
    ((d.add a).1, (d.add a).2.labelled location isPartial)

theorem overlooks_of_couples {a : Addition α}
    (h : ∀ location isPartial, (labelling location isPartial).Couples a a) : Overlooks a :=
  fun d location isPartial => Prod.ext (h location isPartial d _ rfl).1 (h location isPartial d _ rfl).2

theorem package_overlooks (name : String) (flags : ItemFlags) (isStub : Bool) :
    Overlooks (package name flags isStub) :=
  overlooks_of_couples fun _ _ => Coupling.package name rfl isStub

theorem constructor_overlooks (owner : ItemId) (spec : MethodSpec) :
    Overlooks (constructor owner spec) :=
  overlooks_of_couples fun _ _ => Coupling.constructor owner rfl

theorem method_overlooks (owner : ItemId) (spec : MethodSpec) : Overlooks (method owner spec) :=
  overlooks_of_couples fun _ _ => Coupling.method owner rfl

theorem field_overlooks (owner : ItemId) (spec : FieldSpec) : Overlooks (field owner spec) :=
  overlooks_of_couples fun _ _ => Coupling.field owner rfl

theorem topLevelClass_overlooks (package : ItemId) (spec : ClassSpec) :
    Overlooks (topLevelClass package spec) :=
  overlooks_of_couples fun _ _ => Coupling.topLevelClass package rfl

theorem nestedClass_overlooks (outer : ItemId) (spec : ClassSpec) :
    Overlooks (nestedClass outer spec) :=
  overlooks_of_couples fun _ _ => Coupling.nestedClass outer rfl

theorem packageSpec_overlooks (spec : PackageSpec) : Overlooks (packageSpec spec) :=
  overlooks_of_couples fun _ _ =>
    Coupling.packageSpec rfl rfl rfl (List.forall₂_same.mpr fun _ _ => rfl)

end Addition

end ApiSurface
