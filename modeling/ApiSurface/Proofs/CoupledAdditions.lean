import Mathlib.Data.List.Forall2
import ApiSurface.Proofs.Additions

/-! # Coupled additions

Drafts may differ in something that no addition looks at, and so may the specs that are added to them. A
coupling says which drafts and which specs correspond. All additions are made of four, so if these keep a
correspondence, every addition does, and it has the same result on both sides. -/
namespace ApiSurface

variable {α β : Type}

/-- Which drafts correspond, and which specs. Corresponding drafts agree in what an addition asks for, and
each of the four single additions keeps the correspondence. -/
structure Coupling where
  Drafts : Draft → Draft → Prop
  Flags : ItemFlags → ItemFlags → Prop
  Methods : MethodSpec → MethodSpec → Prop
  Fields : FieldSpec → FieldSpec → Prop
  Classes : ClassSpec → ClassSpec → Prop
  nextId {d d'} (h : Drafts d d') : d'.nextId = d.nextId
  packages {d d'} (h : Drafts d d') : d'.packages = d.packages
  classes {d d'} (h : Drafts d d') : d'.classes = d.classes
  packageInfo {d d'} (h : Drafts d d') (id : ItemId) : d'.packageInfo id = d.packageInfo id
  classInfo {d d'} (h : Drafts d d') (id : ItemId) :
    (d.classInfo id).map (·.package) = (d'.classInfo id).map (·.package)
  method_name {spec spec'} (h : Methods spec spec') : spec'.name = spec.name
  field_name {spec spec'} (h : Fields spec spec') : spec'.name = spec.name
  class_name {spec spec'} (h : Classes spec spec') : spec'.name = spec.name
  constructors {spec spec'} (h : Classes spec spec') :
    List.Forall₂ Methods spec.constructors spec'.constructors
  methods {spec spec'} (h : Classes spec spec') : List.Forall₂ Methods spec.methods spec'.methods
  fields {spec spec'} (h : Classes spec spec') : List.Forall₂ Fields spec.fields spec'.fields
  nested {spec spec'} (h : Classes spec spec') : List.Forall₂ Classes spec.nested spec'.nested
  pushPackage {d d' flags flags'} (h : Drafts d d') (name : String) (hflags : Flags flags flags')
    (isStub : Bool) : Drafts (d.pushPackage name flags isStub) (d'.pushPackage name flags' isStub)
  pushClass {d d' spec spec'} (h : Drafts d d') (package : ItemId) (outer : Option ItemId)
    (hspec : Classes spec spec') : Drafts (d.pushClass package outer spec) (d'.pushClass package outer spec')
  pushMethod {d d' owner info info' spec spec'} (h : Drafts d d') (hinfo : d.classInfo owner = .ok info)
    (hinfo' : d'.classInfo owner = .ok info') (isConstructor : Bool) (hspec : Methods spec spec') :
    Drafts (d.pushMethod owner info isConstructor spec) (d'.pushMethod owner info' isConstructor spec')
  pushField {d d' spec spec'} (h : Drafts d d') (owner : ItemId) (hspec : Fields spec spec') :
    Drafts (d.pushField owner spec) (d'.pushField owner spec')

theorem cases_of_map_eq {ε : Type} {f : α → β} {r r' : Except ε α} (h : r.map f = r'.map f) :
    (∃ fault, r = .error fault ∧ r' = .error fault) ∨
      ∃ x x', r = .ok x ∧ r' = .ok x' ∧ f x' = f x := by
  rcases r with fault | x <;> rcases r' with fault' | x' <;> simp_all [Except.map]

namespace Coupling

variable (K : Coupling)

/-- On corresponding drafts the additions have the same result, and what they leave corresponds. -/
def Couples (a a' : Addition α) : Prop :=
  ∀ d d' : Draft, K.Drafts d d' → (d'.add a').1 = (d.add a).1 ∧ K.Drafts (d.add a).2 (d'.add a').2

variable {K}

theorem Couples.pure (x : α) : K.Couples (Pure.pure x) (Pure.pure x) := fun _ _ hd => ⟨rfl, hd⟩

theorem Couples.bind {a a' : Addition α} {f f' : α → Addition β} (ha : K.Couples a a')
    (hf : ∀ x, K.Couples (f x) (f' x)) : K.Couples (a >>= f) (a' >>= f') := by
  intro d d' hd
  obtain ⟨hresult, hleft⟩ := ha d d' hd
  rcases hr : d.add a with ⟨result, e⟩
  rcases hr' : d'.add a' with ⟨result', e'⟩
  rw [hr, hr'] at hresult hleft
  obtain rfl : result' = result := hresult
  cases result' with
  | error fault =>
    rw [Draft.add_bind_error hr, Draft.add_bind_error hr']
    exact ⟨rfl, hleft⟩
  | ok x =>
    rw [Draft.add_bind_ok hr, Draft.add_bind_ok hr']
    exact hf x e e' hleft

theorem Couples.each {R : α → α → Prop} {add : α → Addition ItemId} {specs specs' : List α}
    (hadd : ∀ spec spec', R spec spec' → K.Couples (add spec) (add spec'))
    (h : List.Forall₂ R specs specs') :
    K.Couples (Addition.each add specs) (Addition.each add specs') := by
  induction h with
  | nil => exact .pure _
  | cons hspec _ ih => exact (hadd _ _ hspec).bind fun _ => ih

theorem package {flags flags' : ItemFlags} (name : String) (hflags : K.Flags flags flags')
    (isStub : Bool) :
    K.Couples (Addition.package name flags isStub) (Addition.package name flags' isStub) := by
  intro d d' hd
  rw [Draft.add_package, Draft.add_package, K.packages hd, K.nextId hd]
  split
  · exact ⟨rfl, hd⟩
  · cases d.packages[name]? with
    | some id => exact ⟨rfl, hd⟩
    | none => exact ⟨rfl, K.pushPackage hd name hflags isStub⟩

variable {spec spec' : MethodSpec}

theorem constructor (owner : ItemId) (h : K.Methods spec spec') :
    K.Couples (Addition.constructor owner spec) (Addition.constructor owner spec') := by
  intro d d' hd
  rw [Draft.add_constructor, Draft.add_constructor, K.nextId hd]
  rcases cases_of_map_eq (K.classInfo hd owner) with ⟨fault, he, he'⟩ | ⟨info, info', he, he', _⟩
  · rw [he, he']
    exact ⟨rfl, hd⟩
  · rw [he, he']
    exact ⟨rfl, K.pushMethod hd he he' true h⟩

theorem method (owner : ItemId) (h : K.Methods spec spec') :
    K.Couples (Addition.method owner spec) (Addition.method owner spec') := by
  intro d d' hd
  rw [Draft.add_method, Draft.add_method, K.nextId hd, K.method_name h]
  split
  · exact ⟨rfl, hd⟩
  · rcases cases_of_map_eq (K.classInfo hd owner) with ⟨fault, he, he'⟩ | ⟨info, info', he, he', _⟩
    · rw [he, he']
      exact ⟨rfl, hd⟩
    · rw [he, he']
      exact ⟨rfl, K.pushMethod hd he he' false h⟩

theorem field {spec spec' : FieldSpec} (owner : ItemId) (h : K.Fields spec spec') :
    K.Couples (Addition.field owner spec) (Addition.field owner spec') := by
  intro d d' hd
  rw [Draft.add_field, Draft.add_field, K.nextId hd, K.field_name h]
  split
  · exact ⟨rfl, hd⟩
  · rcases cases_of_map_eq (K.classInfo hd owner) with ⟨fault, he, he'⟩ | ⟨info, info', he, he', _⟩
    · rw [he, he']
      exact ⟨rfl, hd⟩
    · rw [he, he']
      exact ⟨rfl, K.pushField hd owner h⟩

theorem classHead {spec spec' : ClassSpec} (package : ItemId) (outer : Option ItemId)
    (h : K.Classes spec spec') :
    K.Couples (Addition.classHead package outer spec) (Addition.classHead package outer spec') := by
  intro d d' hd
  rw [Draft.add_classHead, Draft.add_classHead, K.nextId hd, K.classes hd, K.class_name h]
  split
  · exact ⟨rfl, hd⟩
  · split
    · exact ⟨rfl, hd⟩
    · exact ⟨rfl, K.pushClass hd package outer h⟩

mutual
theorem classIn (package : ItemId) (outer : Option ItemId) : (spec : ClassSpec) → {spec' : ClassSpec} →
    K.Classes spec spec' →
    K.Couples (Addition.classIn package outer spec) (Addition.classIn package outer spec')
  | ⟨name, kind, modifiers, flags, isStub, superclass, interfaces, typeParameters, constructors, methods,
      fields, nested⟩, ⟨_, _, _, _, _, _, _, _, _, _, _, _⟩, h => by
    have hhead := classHead package outer h
    rw [Addition.classIn, Addition.classIn]
    refine hhead.bind fun id => ?_
    refine (Couples.each (R := K.Methods) (fun _ _ => constructor id) (K.constructors h)).bind fun _ => ?_
    refine (Couples.each (R := K.Methods) (fun _ _ => method id) (K.methods h)).bind fun _ => ?_
    refine (Couples.each (R := K.Fields) (fun _ _ => field id) (K.fields h)).bind fun _ => ?_
    exact (classesIn package id nested (K.nested h)).bind fun _ => .pure id

theorem classesIn (package outer : ItemId) : (specs : List ClassSpec) → {specs' : List ClassSpec} →
    List.Forall₂ K.Classes specs specs' →
    K.Couples (Addition.classesIn package outer specs) (Addition.classesIn package outer specs')
  | [], _, h => by
    cases h
    rw [Addition.classesIn]
    exact .pure _
  | spec :: rest, _, h => by
    cases h with
    | cons hspec hrest =>
      rw [Addition.classesIn, Addition.classesIn]
      exact (classIn package (some outer) spec hspec).bind fun _ => classesIn package outer rest hrest
end

theorem topLevelClass {spec spec' : ClassSpec} (package : ItemId) (h : K.Classes spec spec') :
    K.Couples (Addition.topLevelClass package spec) (Addition.topLevelClass package spec') := by
  intro d d' hd
  rw [Draft.add_topLevelClass, Draft.add_topLevelClass, K.packageInfo hd]
  cases d.packageInfo package with
  | ok info => exact classIn package none spec h d d' hd
  | error fault => exact ⟨rfl, hd⟩

theorem nestedClass {spec spec' : ClassSpec} (outer : ItemId) (h : K.Classes spec spec') :
    K.Couples (Addition.nestedClass outer spec) (Addition.nestedClass outer spec') := by
  intro d d' hd
  rw [Draft.add_nestedClass, Draft.add_nestedClass]
  rcases cases_of_map_eq (K.classInfo hd outer) with ⟨fault, he, he'⟩ | ⟨info, info', he, he', hpackage⟩
  · rw [he, he']
    exact ⟨rfl, hd⟩
  · rw [he, he']
    dsimp only
    rw [hpackage]
    exact classIn info.package (some outer) spec h d d' hd

theorem packageSpec {spec spec' : PackageSpec} (hname : spec'.name = spec.name)
    (hflags : K.Flags spec.flags spec'.flags) (hstub : spec'.isStub = spec.isStub)
    (hclasses : List.Forall₂ K.Classes spec.classes spec'.classes) :
    K.Couples (Addition.packageSpec spec) (Addition.packageSpec spec') := by
  unfold Addition.packageSpec
  rw [hname, hstub]
  refine (package (K := K) spec.name hflags spec.isStub).bind fun id => ?_
  exact (Couples.each (R := K.Classes) (fun _ _ => topLevelClass id) hclasses).bind fun _ => .pure id

end Coupling

end ApiSurface
