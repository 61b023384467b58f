import ApiSurface.Proofs.Restyling

/-! # Recast descriptions

The data beside the point comes from the description of a surface. To recast a description is to restyle it
and to keep its types as they are. So it comes to the same as to recast what it describes: every addition
does to the recast draft what it did before, with the same result, and finishing the draft sees no
difference. -/
namespace ApiSurface

variable {α : Type}

/-! ## Specs and drafts -/

def ParameterSpec.recast (spec : ParameterSpec) (r : Recast) : ParameterSpec :=
  { spec with modifiers := spec.modifiers.recast r }

def MethodSpec.recast (spec : MethodSpec) (r : Recast) : MethodSpec :=
  { spec with
    modifiers := spec.modifiers.recast r
    flags := spec.flags.recast r
    parameters := spec.parameters.map (·.recast r)
    property := r.property spec.property }

def FieldSpec.recast (spec : FieldSpec) (r : Recast) : FieldSpec :=
  { spec with
    modifiers := spec.modifiers.recast r
    flags := spec.flags.recast r
    isEnumConstant := r.isEnumConstant spec.isEnumConstant }

mutual
def ClassSpec.recast (r : Recast) : ClassSpec → ClassSpec
  | ⟨name, kind, modifiers, flags, isStub, superclass, interfaces, typeParameters, constructors,
      methods, fields, nested⟩ =>
    ⟨name, kind, modifiers.recast r, flags.recast r, isStub, superclass, interfaces, typeParameters,
      constructors.map (·.recast r), methods.map (·.recast r), fields.map (·.recast r),
      recastEach r nested⟩

def ClassSpec.recastEach (r : Recast) : List ClassSpec → List ClassSpec
  | [] => []
  | spec :: rest => spec.recast r :: recastEach r rest
end

def PackageSpec.recast (spec : PackageSpec) (r : Recast) : PackageSpec :=
  { spec with flags := spec.flags.recast r, classes := spec.classes.map (·.recast r) }

def Draft.recast (d : Draft) (r : Recast) : Draft :=
  { d with location := r.location d.location, items := d.items.map (·.recast r) }

variable (r : Recast)

/-! ## Types that are kept -/

def Restyling.ofRecast (r : Recast) : Restyling := { r with }

theorem TypeParameter.restyled_ofRecast (p : TypeParameter) : p.restyled (.ofRecast r) = p :=
  congrArg (TypeParameter.mk p.name) (List.map_id _)

theorem TypeParameter.map_restyled_ofRecast (ps : List TypeParameter) :
    ps.map (·.restyled (.ofRecast r)) = ps :=
  (List.map_congr_left fun p _ => p.restyled_ofRecast r).trans (List.map_id _)

theorem MethodSpec.restyled_ofRecast (spec : MethodSpec) : spec.restyled (.ofRecast r) = spec.recast r := by
  have hreturn : spec.returnType.map (Restyling.ofRecast r).type = spec.returnType := Option.map_id_apply
  have hthrows : spec.throws.map (Restyling.ofRecast r).type = spec.throws := List.map_id _
  rw [restyled, hreturn, hthrows, TypeParameter.map_restyled_ofRecast]
  rfl

mutual
theorem ClassSpec.restyled_ofRecast : (spec : ClassSpec) → spec.restyled (.ofRecast r) = spec.recast r
  | ⟨name, kind, modifiers, flags, isStub, superclass, interfaces, typeParameters, constructors,
      methods, fields, nested⟩ => by
    have hsuperclass : superclass.map (Restyling.ofRecast r).type = superclass := Option.map_id_apply
    have hinterfaces : interfaces.map (Restyling.ofRecast r).type = interfaces := List.map_id _
    have hmethods : ∀ specs : List MethodSpec,
        specs.map (·.restyled (.ofRecast r)) = specs.map (·.recast r) := fun specs =>
      List.map_congr_left fun spec _ => spec.restyled_ofRecast r
    rw [restyled, recast, hsuperclass, hinterfaces, TypeParameter.map_restyled_ofRecast, hmethods, hmethods,
      restyledEach_ofRecast nested]
    rfl

theorem ClassSpec.restyledEach_ofRecast : (specs : List ClassSpec) →
    restyledEach (.ofRecast r) specs = recastEach r specs
  | [] => by rw [restyledEach, recastEach]
  | spec :: rest => by
    rw [restyledEach, recastEach, restyled_ofRecast spec, restyledEach_ofRecast rest]
end

theorem PackageSpec.restyled_ofRecast (spec : PackageSpec) : spec.restyled (.ofRecast r) = spec.recast r := by
  have hclasses : spec.classes.map (·.restyled (.ofRecast r)) = spec.classes.map (·.recast r) :=
    List.map_congr_left fun spec _ => spec.restyled_ofRecast r
  rw [restyled, hclasses]
  rfl

theorem Item.restyled_ofRecast (item : Item) : item.restyled (.ofRecast r) = item.recast r := by
  rcases item with ⟨_, _, _, _, _, payload⟩
  have hkept : payload.restyled (.ofRecast r) = payload.recast r := by
    have hoption : ∀ o : Option TypeRef, o.map (Restyling.ofRecast r).type = o := fun _ => Option.map_id_apply
    have hlist : ∀ l : List TypeRef, l.map (Restyling.ofRecast r).type = l := fun _ => List.map_id _
    cases payload <;> simp only [Payload.restyled, Payload.recast, ClassInfo.restyled, MethodInfo.restyled,
      FieldInfo.restyled, ParameterInfo.restyled, hoption, hlist, TypeParameter.map_restyled_ofRecast] <;> rfl
  rw [restyled, hkept]
  rfl

namespace Draft

variable (d : Draft)

theorem restyled_ofRecast : d.restyled (.ofRecast r) = d.recast r := by
  have hitems : d.items.map (·.restyled (.ofRecast r)) = d.items.map (·.recast r) :=
    Array.map_congr_left fun item _ => item.restyled_ofRecast r
  rw [restyled, hitems]
  rfl

/-- What is made of the recast draft differs by its label and by what was replaced. -/
theorem toSurface_recast : (d.recast r).toSurface = { d.toSurface.recast r with serial := 0 } := by
  have hcanonical : ∀ item : Item,
      Surface.canonicalItem (item.recast r) = (Surface.canonicalItem item).recast r := by
    intro item
    rcases item with ⟨_, _, _, _, _, payload⟩
    cases payload <;> rfl
  have hitems : (d.items.map (·.recast r)).map Surface.canonicalItem =
      (d.items.map Surface.canonicalItem).map (·.recast r) := by
    simp only [Array.map_map, Function.comp_def, hcanonical]
  exact congrArg (fun items => { (d.recast r).toSurface with items }) hitems

end Draft

/-! ## Additions -/

namespace Addition

/-- The second addition does to the recast draft what the first one does to the draft. -/
def Recasts (r : Recast) (a a' : Addition α) : Prop :=
  ∀ d : Draft, (d.recast r).add a' = ((d.add a).1, (d.add a).2.recast r)

theorem recasts_iff {a a' : Addition α} : Recasts r a a' ↔ Restyles (.ofRecast r) a a' := by
  unfold Recasts Restyles
  simp only [Draft.restyled_ofRecast]

theorem each_recasts {add : α → Addition ItemId} {recast : α → α}
    (h : ∀ x, Recasts r (add x) (add (recast x))) (specs : List α) :
    Recasts r (each add specs) (each add (specs.map recast)) :=
  (recasts_iff r).mpr (each_restyles _ (fun x => (recasts_iff r).mp (h x)) specs)

theorem packageSpec_recasts (spec : PackageSpec) :
    Recasts r (packageSpec spec) (packageSpec (spec.recast r)) := by
  rw [recasts_iff, ← spec.restyled_ofRecast r]
  exact packageSpec_restyles _ spec

end Addition

end ApiSurface
