import Mathlib.Data.List.Nodup
import ApiSurface.Proofs.DistinctFields
import ApiSurface.Proofs.Related

/-! # Reordered documents

A document is reordered if its packages, classes, nested classes, members, exceptions and interfaces
stand in another order and nothing else changes. A reordered document describes the same paths. -/
namespace ApiSurface

/-- The methods differ at most in the order of their exceptions. -/
def MethodSpec.Reordered (spec spec' : MethodSpec) : Prop :=
  spec' = { spec with throws := spec'.throws } ∧ spec.throws.Perm spec'.throws

/-- The classes differ at most in the order of their interfaces, of their members and of the classes in
them, which are reordered themselves. -/
inductive ClassSpec.Reordered : ClassSpec → ClassSpec → Prop where
  | intro {spec spec' : ClassSpec} {nested : List ClassSpec}
      (same : spec' =
        { spec with
          interfaces := spec'.interfaces
          constructors := spec'.constructors
          methods := spec'.methods
          fields := spec'.fields
          nested := spec'.nested })
      (interfaces : spec.interfaces.Perm spec'.interfaces)
      (constructors : Shuffled MethodSpec.Reordered spec.constructors spec'.constructors)
      (methods : Shuffled MethodSpec.Reordered spec.methods spec'.methods)
      (fields : spec.fields.Perm spec'.fields)
      (inner : List.Forall₂ ClassSpec.Reordered spec.nested nested)
      (order : nested.Perm spec'.nested) : Reordered spec spec'

/-- The packages differ at most in the order of their classes, which are reordered themselves. -/
def PackageSpec.Reordered (spec spec' : PackageSpec) : Prop :=
  spec' = { spec with classes := spec'.classes } ∧
    Shuffled ClassSpec.Reordered spec.classes spec'.classes

/-- The documents differ at most in the order of their packages, which are reordered themselves. -/
def Snapshot.Reordered (snapshot snapshot' : Snapshot) : Prop :=
  snapshot' = { snapshot with packages := snapshot'.packages } ∧
    Shuffled PackageSpec.Reordered snapshot.packages snapshot'.packages

namespace TypeRef

theorem canonicalOrder_trans (a b c : TypeRef) (hab : (canonicalOrder a b).isLE = true)
    (hbc : (canonicalOrder b c).isLE = true) : (canonicalOrder a c).isLE = true := by
  have h : canonicalOrder = compareLex (compareOn baseName) (compareOn text) := rfl
  rw [h] at hab hbc ⊢
  exact Std.TransCmp.isLE_trans hab hbc

theorem canonicalOrder_total (a b : TypeRef) :
    ((canonicalOrder a b).isLE || (canonicalOrder b a).isLE) = true := by
  have h : canonicalOrder = compareLex (compareOn baseName) (compareOn text) := rfl
  have hswap : canonicalOrder b a = (canonicalOrder a b).swap := by
    rw [h]
    exact Std.OrientedCmp.eq_swap
  rw [hswap]
  cases canonicalOrder a b <;> rfl

/-- Types that are below each other are written alike. -/
theorem eq_of_canonicalOrder {a b : TypeRef} (hab : (canonicalOrder a b).isLE = true)
    (hba : (canonicalOrder b a).isLE = true) : a = b := by
  have h : canonicalOrder = compareLex (compareOn baseName) (compareOn text) := rfl
  rw [h] at hab hba
  have heq := Std.OrientedCmp.isLE_antisymm hab hba
  have htext := (compareLex_eq_eq.mp heq).2
  cases a
  cases b
  exact congrArg TypeRef.mk (Std.LawfulEqCmp.eq_of_compare htext)

/-- The canonical order does not depend on the order of the list. -/
theorem canonicalSort_perm {l l' : List TypeRef} (h : l.Perm l') : canonicalSort l = canonicalSort l' := by
  unfold canonicalSort
  refine List.Perm.eq_of_pairwise (fun a b _ _ => eq_of_canonicalOrder)
    (List.pairwise_mergeSort canonicalOrder_trans canonicalOrder_total l)
    (List.pairwise_mergeSort canonicalOrder_trans canonicalOrder_total l') ?_
  exact (List.mergeSort_perm l _).trans (h.trans (List.mergeSort_perm l' _).symm)

end TypeRef

/-! ## Traits -/

namespace MethodSpec.Reordered

variable {spec spec' : MethodSpec}

theorem trait (h : spec.Reordered spec') (isConstructor : Bool) (simpleName : String) :
    spec'.trait isConstructor simpleName = spec.trait isConstructor simpleName := by
  have hthrows := TypeRef.canonicalSort_perm h.2
  have hinfo : spec'.info isConstructor simpleName = spec.info isConstructor simpleName := by
    rw [h.1]
    unfold MethodSpec.info
    simp only [hthrows]
  unfold MethodSpec.trait
  rw [hinfo, h.1]

theorem describes_iff (h : spec.Reordered spec') (isConstructor : Bool) (simpleName : String)
    (around path : List Trait) : spec'.Describes isConstructor simpleName around path ↔
      spec.Describes isConstructor simpleName around path := by
  have hparameters : spec'.parameters = spec.parameters := by rw [h.1]
  unfold MethodSpec.Describes
  rw [h.trait, hparameters]

end MethodSpec.Reordered

namespace ClassSpec.Reordered

variable {spec spec' : ClassSpec}

theorem name (h : spec.Reordered spec') : spec'.name = spec.name := by
  cases h with
  | intro same => rw [same]

theorem simpleName (h : spec.Reordered spec') : spec'.simpleName = spec.simpleName := by
  unfold ClassSpec.simpleName
  rw [h.name]

theorem trait (h : spec.Reordered spec') : spec'.trait = spec.trait := by
  cases h with
  | intro same interfaces =>
    have hinterfaces := TypeRef.canonicalSort_perm interfaces
    rw [same]
    unfold ClassSpec.trait Draft.emptyClass
    simp only [hinterfaces]

theorem constructors (h : spec.Reordered spec') :
    Shuffled MethodSpec.Reordered spec.constructors spec'.constructors := by
  cases h with
  | intro _ _ constructors => exact constructors

theorem methods (h : spec.Reordered spec') :
    Shuffled MethodSpec.Reordered spec.methods spec'.methods := by
  cases h with
  | intro _ _ _ methods => exact methods

theorem fields (h : spec.Reordered spec') : spec.fields.Perm spec'.fields := by
  cases h with
  | intro _ _ _ _ fields => exact fields

theorem nested (h : spec.Reordered spec') :
    Shuffled ClassSpec.Reordered spec.nested spec'.nested := by
  cases h with
  | intro _ _ _ _ _ inner order => exact ⟨_, inner, order⟩

end ClassSpec.Reordered

/-! ## Paths -/

namespace ClassSpec

variable {spec spec' : ClassSpec} {around path : List Trait}

theorem Describes.reordered (h : spec.Describes around path) (hr : spec.Reordered spec') :
    spec'.Describes around path := by
  induction h generalizing spec' with
  | self => exact hr.trait ▸ .self
  | constructor hm h =>
    obtain ⟨m', hm', hmm⟩ := hr.constructors.exists_right hm
    rw [← hr.trait, ← hr.simpleName, ← hmm.describes_iff] at h
    exact .constructor hm' h
  | method hm h =>
    obtain ⟨m', hm', hmm⟩ := hr.methods.exists_right hm
    rw [← hr.trait, ← hr.simpleName, ← hmm.describes_iff] at h
    exact .method hm' h
  | field hf => exact hr.trait ▸ .field (hr.fields.mem_iff.mp hf)
  | nested hn _ ih =>
    obtain ⟨n', hn', hnn⟩ := hr.nested.exists_right hn
    exact .nested hn' (hr.trait ▸ ih hnn)

theorem Describes.of_reordered (h : spec'.Describes around path) (hr : spec.Reordered spec') :
    spec.Describes around path := by
  induction h generalizing spec with
  | self => exact hr.trait ▸ .self
  | constructor hm h =>
    obtain ⟨m, hm', hmm⟩ := hr.constructors.exists_left hm
    rw [hr.trait, hr.simpleName, hmm.describes_iff] at h
    exact .constructor hm' h
  | method hm h =>
    obtain ⟨m, hm', hmm⟩ := hr.methods.exists_left hm
    rw [hr.trait, hr.simpleName, hmm.describes_iff] at h
    exact .method hm' h
  | field hf => exact hr.trait ▸ .field (hr.fields.mem_iff.mpr hf)
  | nested hn _ ih =>
    obtain ⟨n, hn', hnn⟩ := hr.nested.exists_left hn
    exact .nested hn' (hr.trait ▸ ih hnn)

theorem DistinctFields.reordered (h : spec.DistinctFields) (hr : spec.Reordered spec') :
    spec'.DistinctFields := by
  induction h generalizing spec' with
  | intro names _ ih =>
    refine .intro ((hr.fields.map _).nodup_iff.mp names) fun n' hn' => ?_
    obtain ⟨n, hn, hnn⟩ := hr.nested.exists_left hn'
    exact ih n hn hnn

end ClassSpec

theorem PackageSpec.Reordered.describes_iff {spec spec' : PackageSpec} (h : spec.Reordered spec')
    (path : List Trait) : spec'.Describes path ↔ spec.Describes path := by
  have htrait : spec'.trait = spec.trait := by rw [h.1]; rfl
  unfold PackageSpec.Describes
  rw [htrait]
  refine or_congr_right ⟨?_, ?_⟩
  · rintro ⟨c', hc', hpath⟩
    obtain ⟨c, hc, hcc⟩ := h.2.exists_left hc'
    exact ⟨c, hc, hpath.of_reordered hcc⟩
  · rintro ⟨c, hc, hpath⟩
    obtain ⟨c', hc', hcc⟩ := h.2.exists_right hc
    exact ⟨c', hc', hpath.reordered hcc⟩

namespace Snapshot.Reordered

variable {snapshot snapshot' : Snapshot}

theorem describes_iff (h : snapshot.Reordered snapshot') (path : List Trait) :
    snapshot'.Describes path ↔ snapshot.Describes path := by
  constructor
  · rintro ⟨p', hp', hpath⟩
    obtain ⟨p, hp, hpp⟩ := h.2.exists_left hp'
    exact ⟨p, hp, (hpp.describes_iff path).mp hpath⟩
  · rintro ⟨p, hp, hpath⟩
    obtain ⟨p', hp', hpp⟩ := h.2.exists_right hp
    exact ⟨p', hp', (hpp.describes_iff path).mpr hpath⟩

theorem distinctFields (h : snapshot.Reordered snapshot') (hs : snapshot.DistinctFields) :
    snapshot'.DistinctFields := by
  intro p' hp' c' hc'
  obtain ⟨p, hp, hpp⟩ := h.2.exists_left hp'
  obtain ⟨c, hc, hcc⟩ := hpp.2.exists_left hc'
  exact (hs p hp c hc).reordered hcc

theorem names_nodup (h : snapshot.Reordered snapshot')
    (hs : (snapshot.packages.map (·.name)).Nodup) : (snapshot'.packages.map (·.name)).Nodup :=
  (h.2.map_perm fun _ _ hpp => by rw [hpp.1]).nodup_iff.mp hs

end Snapshot.Reordered

end ApiSurface
