import ApiSurface.Proofs.Elements
import ApiSurface.Proofs.Reordering

/-! # Which documents load

A document that does not give a surface gives the fault of the first of its elements that is at fault. So
it gives a surface iff no package, class, method or field in it lacks a name and no class in it is declared
twice. Neither depends on the order of declaration, so a reordered document loads if and only if the
document does. -/
namespace ApiSurface

open Arena

namespace Draft

open Element

variable {α β : Type} {d d' : Draft} {earlier elements rest : List Element} {package id : ItemId}

/-! ## Additions of elements -/

/-- A well-formed draft whose classes have the names that the elements take. -/
structure Holds (d : Draft) (elements : List Element) : Prop where
  wellFormed : d.WellFormed
  classes : ∀ name, d.classes.contains name = true ↔ name ∈ taken elements

/-- The addition of elements to a draft that holds the earlier ones: it fails with their first fault, or
the draft grows and holds them too. -/
structure Decided (d : Draft) (a : Addition α) (earlier elements : List Element) : Prop where
  fails : ∀ {fault d'}, d.add a = (.error fault, d') → firstFault? earlier elements = some fault
  succeeds : ∀ {x d'}, d.add a = (.ok x, d') →
    firstFault? earlier elements = none ∧ Grows d d' ∧ d'.Holds (earlier ++ elements)

namespace Decided

variable {a : Addition α} {f : α → Addition β}

theorem pure (h : d.Holds earlier) (x : α) : d.Decided (Pure.pure x : Addition α) earlier [] where
  fails hadd := by cases hadd
  succeeds hadd := by
    cases hadd
    exact ⟨rfl, .refl h.wellFormed, by rwa [List.append_nil]⟩

/-- A sequence of additions fails with the first fault of its parts. -/
theorem bind (h : d.Decided a earlier elements)
    (hf : ∀ x d', d.add a = (.ok x, d') → Grows d d' → d'.Holds (earlier ++ elements) →
      d'.Decided (f x) (earlier ++ elements) rest) : d.Decided (a >>= f) earlier (elements ++ rest) where
  fails hadd := by
    rw [firstFault?_append]
    rcases hr : d.add a with ⟨fault | x, d₁⟩
    · rw [add_bind_error hr] at hadd
      cases hadd
      rw [h.fails hr, Option.some_or]
    · rw [add_bind_ok hr] at hadd
      obtain ⟨hno, hg, hh⟩ := h.succeeds hr
      rw [hno, Option.none_or]
      exact (hf x d₁ hr hg hh).fails hadd
  succeeds hadd := by
    obtain ⟨x, d₁, hr, hadd⟩ := add_bind_eq_ok hadd
    obtain ⟨hno, hg, hh⟩ := h.succeeds hr
    obtain ⟨hno', hg', hh'⟩ := (hf x d₁ hr hg hh).succeeds hadd
    rw [firstFault?_append, hno, Option.none_or, ← List.append_assoc]
    exact ⟨hno', hg.trans hg', hh'⟩

/-- A run of additions to a draft that stays ready for them. -/
theorem each {add : α → Addition ItemId} {Ready : Draft → Prop} {elements : α → List Element}
    (hready : ∀ {d d' : Draft}, Ready d → Grows d d' → Ready d')
    (hadd : ∀ {d : Draft} {earlier : List Element} (x : α), d.Holds earlier → Ready d →
      d.Decided (add x) earlier (elements x))
    (h : d.Holds earlier) (hd : Ready d) (specs : List α) :
    d.Decided (Addition.each add specs) earlier (specs.flatMap elements) := by
  induction specs generalizing d earlier with
  | nil => exact pure h PUnit.unit
  | cons spec rest ih =>
    rw [List.flatMap_cons]
    exact (hadd spec h hd).bind fun _ d₁ _ hg hh => ih hh (hready hd hg)

/-- An addition of an element that is in order and no class. -/
theorem member (h : d.Holds earlier) {e : Element} (hfault : e.fault? earlier = none)
    (htaken : e.taken? = none) (hg : Grows d d') (hclasses : d'.classes = d.classes) {x : α}
    (hadd : d.add a = (.ok x, d')) : d.Decided a earlier [e] where
  fails hadd' := by
    rw [hadd] at hadd'
    cases hadd'
  succeeds hadd' := by
    rw [hadd] at hadd'
    cases hadd'
    refine ⟨firstFault?_singleton.trans hfault, hg, hg.wellFormed, fun name => ?_⟩
    rw [hclasses, h.classes, taken_append]
    unfold taken
    rw [List.filterMap_cons_none htaken, List.filterMap_nil, List.append_nil]

/-- An addition that fails. -/
theorem of_error {e : Element} {fault : Fault} (hfault : e.fault? earlier = some fault)
    (hadd : d.add a = (.error fault, d')) : d.Decided a earlier [e] where
  fails hadd' := by
    rw [hadd] at hadd'
    cases hadd'
    exact firstFault?_singleton.trans hfault
  succeeds hadd' := by
    rw [hadd] at hadd'
    cases hadd'

/-- An addition of an element that is no class and must have a name. -/
theorem named (h : d.Holds earlier) {e : Element} {sort reason name : String}
    (hfault : e.fault? earlier = nameFault? sort reason name) (htaken : e.taken? = none)
    (hg : Grows d d') (hclasses : d'.classes = d.classes) {x : α}
    (hadd : d.add a = if Text.isAllBlank name then (.error (.invalidName sort reason), d)
      else (.ok x, d')) : d.Decided a earlier [e] := by
  unfold nameFault? at hfault
  split at hfault
  · next hblank => exact of_error hfault (hadd.trans (if_pos hblank))
  · next hnamed => exact member h hfault htaken hg hclasses (hadd.trans (if_neg hnamed))

end Decided

/-! ## Members -/

theorem classInfo_of_classAt (h : ClassAt d.shapes id package) : ∃ info, d.classInfo id = .ok info := by
  obtain ⟨name, outer, hrole⟩ := h
  rw [roleAt, shapes, getElem?_shapes, Option.map_map] at hrole
  obtain ⟨item, hitem, hrole⟩ := Option.map_eq_some_iff.mp hrole
  unfold classInfo
  rw [hitem]
  have hpay : item.payload.role = .ofClass name package outer := hrole
  cases hp : item.payload with
  | ofClass info => exact ⟨info, by dsimp only; rw [hp]⟩
  | _ => rw [hp] at hpay; cases hpay

theorem packageInfo_of_packageAt (h : PackageAt d.shapes id) : ∃ info, d.packageInfo id = .ok info := by
  obtain ⟨name, hrole⟩ := h
  rw [roleAt, shapes, getElem?_shapes, Option.map_map] at hrole
  obtain ⟨item, hitem, hrole⟩ := Option.map_eq_some_iff.mp hrole
  unfold packageInfo
  rw [hitem]
  have hpay : item.payload.role = .package name := hrole
  cases hp : item.payload with
  | package info => exact ⟨info, by dsimp only; rw [hp]⟩
  | _ => rw [hp] at hpay; cases hpay

theorem classes_pushMethod (d : Draft) (owner : ItemId) (info : ClassInfo) (isConstructor : Bool)
    (spec : MethodSpec) : (d.pushMethod owner info isConstructor spec).classes = d.classes := by
  rw [pushMethod_eq]

theorem constructor_decided (spec : MethodSpec) (h : d.Holds earlier)
    (hc : ClassAt d.shapes id package) :
    d.Decided (Addition.constructor id spec) earlier [.constructor spec.name] := by
  obtain ⟨info, hinfo⟩ := classInfo_of_classAt hc
  have hadd := add_constructor d id spec
  rw [hinfo] at hadd
  exact .member h rfl rfl (pushMethod_grows h.wellFormed hc info true spec)
    (classes_pushMethod d id info true spec) hadd

theorem method_decided (spec : MethodSpec) (h : d.Holds earlier) (hc : ClassAt d.shapes id package) :
    d.Decided (Addition.method id spec) earlier [.method spec.name] := by
  obtain ⟨info, hinfo⟩ := classInfo_of_classAt hc
  have hadd := add_method d id spec
  rw [hinfo] at hadd
  exact .named h rfl rfl (pushMethod_grows h.wellFormed hc info false spec)
    (classes_pushMethod d id info false spec) hadd

theorem field_decided (spec : FieldSpec) (h : d.Holds earlier) (hc : ClassAt d.shapes id package) :
    d.Decided (Addition.field id spec) earlier [.field spec.name] := by
  obtain ⟨info, hinfo⟩ := classInfo_of_classAt hc
  have hadd := add_field d id spec
  rw [hinfo] at hadd
  exact .named h rfl rfl (pushField_grows h.wellFormed hc spec) rfl hadd

/-! ## Classes -/

theorem classHead_decided (spec : ClassSpec) (h : d.Holds earlier) {outer : Option ItemId}
    (hpackage : PackageAt d.shapes package)
    (houter : ∀ o, outer = some o → ClassAt d.shapes o package) :
    d.Decided (Addition.classHead package outer spec) earlier [.ofClass spec.name] := by
  have hadd := add_classHead d package outer spec
  have hfault : (Element.ofClass spec.name).fault? earlier =
      if Text.isAllBlank spec.name then some (.invalidName "class" "qualified name is empty")
      else if Text.trimmed spec.name ∈ taken earlier then some (.duplicateClass (Text.trimmed spec.name))
      else none := by
    simp only [fault?, nameFault?]
    cases Text.isAllBlank spec.name <;> rfl
  simp only [← h.classes] at hfault
  split at hfault
  · next hblank => exact .of_error hfault (hadd.trans (if_pos hblank))
  next hnamed =>
  rw [if_neg hnamed] at hadd
  split at hfault
  · next hname => exact .of_error hfault (hadd.trans (if_pos hname))
  next hname =>
  rw [if_neg hname] at hadd
  refine ⟨fun hadd' => ?_, fun hadd' => ?_⟩
  · rw [hadd] at hadd'
    cases hadd'
  · rw [hadd] at hadd'
    cases hadd'
    have hg := (pushClass_grows h.wellFormed hpackage houter (Bool.not_eq_true _ ▸ hname)).1
    refine ⟨firstFault?_singleton.trans hfault, hg, hg.wellFormed, fun name => ?_⟩
    rw [classes_pushClass, Std.TreeMap.contains_insert, Bool.or_eq_true, beq_iff_eq,
      Std.LawfulEqCmp.compare_eq_iff_eq, h.classes, taken_append, List.mem_append, or_comm, eq_comm]
    exact or_congr_right List.mem_singleton.symm

mutual
/-- A class is added, or the first fault in it ends the addition. -/
theorem classIn_decided {d : Draft} {earlier : List Element} (h : d.Holds earlier) {package : ItemId}
    {outer : Option ItemId} (hpackage : PackageAt d.shapes package)
    (houter : ∀ o, outer = some o → ClassAt d.shapes o package) : (spec : ClassSpec) →
    d.Decided (Addition.classIn package outer spec) earlier spec.elements
  | ⟨name, kind, modifiers, flags, isStub, superclass, interfaces, typeParameters, constructors,
      methods, fields, nested⟩ => by
    have hready : ∀ {id : ItemId} {d d' : Draft}, ClassAt d.shapes id package → Grows d d' →
        ClassAt d'.shapes id package := fun hc hg => hg.classAt hc
    let spec : ClassSpec := ⟨name, kind, modifiers, flags, isStub, superclass, interfaces,
      typeParameters, constructors, methods, fields, nested⟩
    have helements : spec.elements = [.ofClass name] ++
        (constructors.flatMap (fun m => [.constructor m.name]) ++
          (methods.flatMap (fun m => [.method m.name]) ++
            (fields.flatMap (fun f => [.field f.name]) ++ (ClassSpec.elementsIn nested ++ [])))) := by
      rw [ClassSpec.elements, List.append_nil]
      simp only [List.map_eq_flatMap, List.singleton_append]
    change d.Decided _ _ spec.elements
    rw [Addition.classIn, helements]
    refine (classHead_decided spec h hpackage houter).bind fun id d₁ hr hg₁ h₁ => ?_
    have hc₁ := (classHead_grows h.wellFormed hpackage houter spec).2 id d₁ hr
    refine (Decided.each hready constructor_decided h₁ hc₁ constructors).bind fun _ d₂ _ hg₂ h₂ => ?_
    have hc₂ := hg₂.classAt hc₁
    refine (Decided.each hready method_decided h₂ hc₂ methods).bind fun _ d₃ _ hg₃ h₃ => ?_
    have hc₃ := hg₃.classAt hc₂
    refine (Decided.each hready field_decided h₃ hc₃ fields).bind fun _ d₄ _ hg₄ h₄ => ?_
    have hg := hg₁.trans (hg₂.trans (hg₃.trans hg₄))
    refine (classesIn_decided h₄ (hg.packageAt hpackage) (hg₄.classAt hc₃) nested).bind
      fun _ d₅ _ _ h₅ => ?_
    exact Decided.pure h₅ id

theorem classesIn_decided {d : Draft} {earlier : List Element} (h : d.Holds earlier)
    {package outer : ItemId} (hpackage : PackageAt d.shapes package)
    (houter : ClassAt d.shapes outer package) : (specs : List ClassSpec) →
    d.Decided (Addition.classesIn package outer specs) earlier (ClassSpec.elementsIn specs)
  | [] => by
    rw [Addition.classesIn, ClassSpec.elementsIn]
    exact Decided.pure h PUnit.unit
  | spec :: rest => by
    rw [Addition.classesIn, ClassSpec.elementsIn]
    exact (classIn_decided h hpackage houter.of_some spec).bind fun _ d₁ _ hg h₁ =>
      classesIn_decided h₁ (hg.packageAt hpackage) (hg.classAt houter) rest
end

theorem topLevelClass_decided (spec : ClassSpec) (h : d.Holds earlier)
    (hp : PackageAt d.shapes package) :
    d.Decided (Addition.topLevelClass package spec) earlier spec.elements := by
  obtain ⟨info, hinfo⟩ := packageInfo_of_packageAt hp
  have hadd := add_topLevelClass d package spec
  rw [hinfo] at hadd
  have hclass := classIn_decided h hp (fun o (ho : none = some o) => by cases ho) spec
  exact ⟨fun hr => hclass.fails (hadd ▸ hr), fun hr => hclass.succeeds (hadd ▸ hr)⟩

/-! ## Packages -/

/-- What is returned for a package is its id. -/
theorem packageAt_of_add (h : d.WellFormed) {name : String} {flags : ItemFlags} {isStub : Bool}
    (hok : d.add (Addition.package name flags isStub) = (.ok id, d')) : PackageAt d'.shapes id := by
  have hgrows := package_grows h name flags isStub
  rw [hok] at hgrows
  refine ⟨name, (Arena.WellFormed.packages hgrows.wellFormed name id).mp ?_⟩
  rcases add_package_eq_ok hok with ⟨hname, rfl⟩ | ⟨_, rfl, rfl⟩
  · exact hname
  · exact Std.TreeMap.getElem?_insert_self

theorem package_decided (h : d.Holds earlier) (name : String) (flags : ItemFlags) (isStub : Bool) :
    d.Decided (Addition.package name flags isStub) earlier [.package name] := by
  have hadd := add_package d name flags isStub
  cases hname : d.packages[name]? with
  | some id =>
    rw [hname] at hadd
    exact .named h rfl rfl (.refl h.wellFormed) rfl hadd
  | none =>
    rw [hname] at hadd
    exact .named h rfl rfl (pushPackage_grows h.wellFormed flags isStub hname) rfl hadd

theorem packageSpec_decided (spec : PackageSpec) (h : d.Holds earlier) :
    d.Decided (Addition.packageSpec spec) earlier spec.elements := by
  have helements : spec.elements =
      [.package spec.name] ++ (spec.classes.flatMap ClassSpec.elements ++ []) := by
    rw [List.append_nil, List.singleton_append, ClassSpec.flatMap_elements]
    rfl
  have hready : ∀ {package : ItemId} {d d' : Draft}, PackageAt d.shapes package → Grows d d' →
      PackageAt d'.shapes package := fun hp hg => hg.packageAt hp
  rw [helements]
  unfold Addition.packageSpec
  refine (package_decided h spec.name spec.flags spec.isStub).bind fun id d₁ hok _ h₁ => ?_
  refine (Decided.each hready topLevelClass_decided h₁ (packageAt_of_add h.wellFormed hok)
    spec.classes).bind fun _ d₂ _ _ h₂ => ?_
  exact Decided.pure h₂ id

end Draft

namespace Snapshot

theorem emptyDraft_holds (snapshot : Snapshot) (readFrom : String) :
    (snapshot.emptyDraft readFrom).Holds [] :=
  ⟨Arena.WellFormed.empty, fun name => by simp [emptyDraft, Element.taken]⟩

theorem packages_decided (snapshot : Snapshot) (readFrom : String) :
    (snapshot.emptyDraft readFrom).Decided (Addition.each Addition.packageSpec snapshot.packages) []
      snapshot.elements :=
  Draft.Decided.each (fun {_ _} (_ : True) _ => trivial)
    (fun spec h _ => Draft.packageSpec_decided spec h) (snapshot.emptyDraft_holds readFrom) trivial
    snapshot.packages

/-- A document gives a surface, or the first fault of its elements. -/
theorem toSurface_decided (snapshot : Snapshot) (readFrom : String) :
    (∀ fault, snapshot.toSurface readFrom = .error fault ↔
      Element.firstFault? [] snapshot.elements = some fault) ∧
    ((∃ s, snapshot.toSurface readFrom = .ok s) ↔
      Element.firstFault? [] snapshot.elements = none) := by
  have hall := snapshot.packages_decided readFrom
  unfold toSurface
  split
  · next x d heq =>
    have hno := (hall.succeeds heq).1
    rw [hno]
    exact ⟨fun fault => by simp, by simp⟩
  · next fault d heq =>
    rw [hall.fails heq]
    exact ⟨fun fault => by simp, by simp⟩

/-- A document gives a surface iff what must have a name has one and no class is declared twice. -/
theorem loads_iff (snapshot : Snapshot) (readFrom : String) :
    (∃ s, snapshot.toSurface readFrom = .ok s) ↔ snapshot.Loadable := by
  rw [(snapshot.toSurface_decided readFrom).2, snapshot.firstFault?_elements_eq_none_iff]

end Snapshot

/-! ## Reordered documents -/

namespace ClassSpec

variable {spec spec' : ClassSpec}

theorem Named.reordered (h : spec.Named) (hr : spec.Reordered spec') : spec'.Named := by
  induction h generalizing spec' with
  | intro self methods fields _ ih =>
    refine .intro (hr.name ▸ self) (fun m' hm' => ?_) (fun f hf => fields f (hr.fields.mem_iff.mpr hf))
      fun n' hn' => ?_
    · obtain ⟨m, hm, hmm⟩ := hr.methods.exists_left hm'
      rw [hmm.1]
      exact methods m hm
    · obtain ⟨n, hn, hnn⟩ := hr.nested.exists_left hn'
      exact ih n hn hnn

theorem takenNames_eq (spec : ClassSpec) :
    spec.takenNames = Text.trimmed spec.name :: takenNamesIn spec.nested := by
  cases spec
  rw [takenNames]

theorem flatMap_takenNames (specs : List ClassSpec) :
    specs.flatMap ClassSpec.takenNames = takenNamesIn specs := by
  induction specs with
  | nil => rw [takenNamesIn, List.flatMap_nil]
  | cons spec rest ih => rw [List.flatMap_cons, ih, takenNamesIn]

theorem takenNamesIn_perm {specs specs' : List ClassSpec} (h : specs.Perm specs') :
    (takenNamesIn specs).Perm (takenNamesIn specs') := by
  rw [← flatMap_takenNames, ← flatMap_takenNames]
  exact h.flatMap_right _

mutual
theorem Reordered.takenNames : (spec : ClassSpec) → {spec' : ClassSpec} → spec.Reordered spec' →
    spec.takenNames.Perm spec'.takenNames
  | ⟨name, kind, modifiers, flags, isStub, superclass, interfaces, typeParameters, constructors,
      methods, fields, nested⟩, spec', h => by
    obtain ⟨inner, hinner, hperm⟩ := h.nested
    rw [takenNames_eq, takenNames_eq, h.name]
    exact ((takenNamesIn_reordered nested hinner).trans (takenNamesIn_perm hperm)).cons _

theorem takenNamesIn_reordered : (specs : List ClassSpec) → {specs' : List ClassSpec} →
    List.Forall₂ Reordered specs specs' → (takenNamesIn specs).Perm (takenNamesIn specs')
  | [], _, .nil => .refl _
  | spec :: rest, _, .cons h hrest =>
    (Reordered.takenNames spec h).append (takenNamesIn_reordered rest hrest)
end

end ClassSpec

namespace Snapshot.Reordered

variable {snapshot snapshot' : Snapshot}

theorem takenNames (h : snapshot.Reordered snapshot') :
    snapshot.takenNames.Perm snapshot'.takenNames := by
  obtain ⟨packages, hpackages, hperm⟩ := h.2
  unfold Snapshot.takenNames
  refine List.Perm.trans ?_ (hperm.flatMap_right _)
  clear hperm
  generalize snapshot.packages = specs at hpackages ⊢
  induction hpackages with
  | nil => exact .refl _
  | cons hp _ ih =>
    obtain ⟨classes, hclasses, hperm⟩ := hp.2
    exact ((ClassSpec.takenNamesIn_reordered _ hclasses).trans
      (ClassSpec.takenNamesIn_perm hperm)).append ih

theorem loadable (h : snapshot.Reordered snapshot') (hl : snapshot.Loadable) : snapshot'.Loadable where
  named p' hp' := by
    obtain ⟨p, hp, hpp⟩ := h.2.exists_left hp'
    have hp₀ := hl.named p hp
    refine ⟨by rw [hpp.1]; exact hp₀.self, fun c' hc' => ?_⟩
    obtain ⟨c, hc, hcc⟩ := hpp.2.exists_left hc'
    exact (hp₀.classes c hc).reordered hcc
  distinct := h.takenNames.nodup_iff.mp hl.distinct

/-- What loads in one order loads in every order. -/
theorem loads (h : snapshot.Reordered snapshot') {readFrom : String} {s : Surface}
    (hs : snapshot.toSurface readFrom = .ok s) (readFrom' : String) :
    ∃ s', snapshot'.toSurface readFrom' = .ok s' :=
  (snapshot'.loads_iff readFrom').mpr (h.loadable ((snapshot.loads_iff readFrom).mp ⟨s, hs⟩))

end Snapshot.Reordered

end ApiSurface
