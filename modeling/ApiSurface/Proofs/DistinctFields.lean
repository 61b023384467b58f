import Mathlib.Data.List.Nodup
import ApiSurface.Proofs.Described

/-! # Distinct fields

If no class of a document has two fields of one name, no class of the surface has, neither before nor
after members of hidden superclasses have been copied. Fields are counted by their keys, the class and
the name of each. -/
namespace ApiSurface

open Arena

/-- Neither the class nor a class in it has two fields of one name. -/
inductive ClassSpec.DistinctFields : ClassSpec → Prop where
  | intro {spec : ClassSpec} (names : (spec.fields.map (·.name)).Nodup)
      (nested : ∀ n ∈ spec.nested, DistinctFields n) : DistinctFields spec

/-- No class of the document has two fields of one name. -/
def Snapshot.DistinctFields (snapshot : Snapshot) : Prop :=
  ∀ p ∈ snapshot.packages, ∀ c ∈ p.classes, c.DistinctFields

namespace ClassSpec

mutual
/-- Whether neither the class nor a class in it has two fields of one name. -/
def fieldsDiffer : ClassSpec → Bool
  | ⟨_, _, _, _, _, _, _, _, _, _, fields, nested⟩ =>
    decide (fields.map (·.name)).Nodup && fieldsDifferIn nested

/-- Whether that is so for each of the classes. -/
def fieldsDifferIn : List ClassSpec → Bool
  | [] => true
  | spec :: rest => spec.fieldsDiffer && fieldsDifferIn rest
end

mutual
theorem fieldsDiffer_iff : (spec : ClassSpec) → (spec.fieldsDiffer = true ↔ spec.DistinctFields)
  | ⟨_, _, _, _, _, _, _, _, _, _, fields, nested⟩ => by
    rw [fieldsDiffer, Bool.and_eq_true, decide_eq_true_iff, fieldsDifferIn_iff nested]
    exact ⟨fun h => .intro h.1 h.2, fun ⟨names, inner⟩ => ⟨names, inner⟩⟩

theorem fieldsDifferIn_iff : (specs : List ClassSpec) →
    (fieldsDifferIn specs = true ↔ ∀ n ∈ specs, n.DistinctFields)
  | [] => by simp [fieldsDifferIn]
  | spec :: rest => by
    rw [fieldsDifferIn, Bool.and_eq_true, fieldsDiffer_iff spec, fieldsDifferIn_iff rest,
      List.forall_mem_cons]
end

instance (spec : ClassSpec) : Decidable spec.DistinctFields :=
  decidable_of_iff _ spec.fieldsDiffer_iff

end ClassSpec

instance (snapshot : Snapshot) : Decidable snapshot.DistinctFields :=
  inferInstanceAs (Decidable (∀ p ∈ snapshot.packages, ∀ c ∈ p.classes, c.DistinctFields))

def Item.fieldKey? (item : Item) : Option (Option ItemId × String) :=
  match item.payload with
  | .field info => some (item.parent, info.name)
  | _ => none

namespace Arena

variable {items : Array Item}

def fieldKeys (items : Array Item) : List (Option ItemId × String) :=
  items.toList.filterMap Item.fieldKey?

theorem fieldKeys_push (items : Array Item) (item : Item) :
    fieldKeys (items.push item) = fieldKeys items ++ item.fieldKey?.toList := by
  unfold fieldKeys
  rw [Array.toList_push, List.filterMap_append]
  cases h : item.fieldKey? <;> simp [h]

theorem fieldKeys_append (items : Array Item) (more : List Item) :
    fieldKeys (items ++ more.toArray) = fieldKeys items ++ more.filterMap Item.fieldKey? := by
  unfold fieldKeys
  rw [Array.toList_append, List.filterMap_append]

theorem fieldKeys_map (items : Array Item) {f : Item → Item}
    (hf : ∀ item, (f item).fieldKey? = item.fieldKey?) : fieldKeys (items.map f) = fieldKeys items := by
  unfold fieldKeys
  rw [Array.toList_map, List.filterMap_map]
  exact congrArg (List.filterMap · _) (funext hf)

theorem fieldKeys_modify (items : Array Item) (i : Nat) {f : Item → Item}
    (hf : ∀ item, (f item).fieldKey? = item.fieldKey?) :
    fieldKeys (items.modify i f) = fieldKeys items := by
  have h : (items.modify i f).toList.map Item.fieldKey? = items.toList.map Item.fieldKey? := by
    apply List.ext_getElem?
    intro j
    rw [List.getElem?_map, List.getElem?_map, Array.getElem?_toList, Array.getElem?_toList,
      Array.getElem?_modify]
    split
    · rw [Option.map_map]
      exact congrArg (Option.map · _) (funext hf)
    · rfl
  have hkeys := congrArg (List.filterMap id) h
  rwa [List.filterMap_map, List.filterMap_map] at hkeys

theorem fieldKeys_withMember {member : Item} {parameters : List Item} {owner : ItemId}
    {link : Item → Item} (hlink : ∀ item, (link item).fieldKey? = item.fieldKey?)
    (hps : ∀ p ∈ parameters, p.fieldKey? = none) :
    fieldKeys (withMember items member parameters owner link) =
      fieldKeys items ++ member.fieldKey?.toList := by
  rw [withMember, fieldKeys_modify _ _ hlink, fieldKeys_append, fieldKeys_push,
    List.filterMap_eq_nil_iff.mpr hps, List.append_nil]

/-- A field is declared in an item that is there. -/
theorem WellFormed.fieldKeys {packages classes : Table} (h : WellFormed items packages classes)
    {key : Option ItemId × String} (hk : key ∈ fieldKeys items) :
    ∃ owner : ItemId, key.1 = some owner ∧ owner.index < items.size := by
  obtain ⟨item, hitem, hkey⟩ := List.mem_filterMap.mp hk
  obtain ⟨i, hi⟩ := List.mem_iff_getElem?.mp hitem
  rw [Array.getElem?_toList] at hi
  have hlt : i < items.size := (Array.getElem?_eq_some_iff.mp hi).1
  have hplaced := (h.placed i item.shape (by rw [getElem?_shapes, hi]; rfl)).2
  unfold Item.fieldKey? at hkey
  cases hp : item.payload with
  | field info =>
    simp only [hp, Option.some.injEq] at hkey
    have hrole : item.shape.role = .field := by
      change item.payload.role = .field
      rw [hp]
      rfl
    simp only [hrole] at hplaced
    obtain ⟨owner, _, hparent, howner, _⟩ := hplaced
    refine ⟨owner, ?_, by omega⟩
    rw [← hkey]
    exact hparent
  | _ => simp [hp] at hkey

end Arena

namespace Draft

variable {d d' : Draft}

theorem fieldKey?_linkClass (slot : Slot) (id : ItemId) (item : Item) :
    (linkClass slot id item).fieldKey? = item.fieldKey? := by
  unfold linkClass Item.fieldKey?
  cases item.payload <;> cases slot <;> rfl

theorem fieldKey?_linkPackage (id : ItemId) (item : Item) :
    (linkPackage id item).fieldKey? = item.fieldKey? := by
  unfold linkPackage Item.fieldKey?
  cases item.payload <;> rfl

theorem fieldKey?_parameterItems {method : ItemId} {rank position : Nat} {specs : List ParameterSpec}
    {item : Item} (h : item ∈ parameterItems method rank position specs) : item.fieldKey? = none := by
  induction specs generalizing rank position with
  | nil => cases h
  | cons spec rest ih =>
    rw [parameterItems] at h
    rcases List.mem_cons.mp h with rfl | h
    · rfl
    · exact ih h

theorem fieldKeys_pushPackage (d : Draft) (name : String) (flags : ItemFlags) (isStub : Bool) :
    fieldKeys (d.pushPackage name flags isStub).items = fieldKeys d.items := by
  have h := fieldKeys_push d.items (d.nextItem none (.ofVisibility .publicAccess) flags (!isStub)
    (.package { name }))
  exact h.trans (List.append_nil _)

theorem fieldKeys_pushClass (d : Draft) (package : ItemId) (outer : Option ItemId) (spec : ClassSpec) :
    fieldKeys (d.pushClass package outer spec).items = fieldKeys d.items := by
  have hpush : fieldKeys (d.items.push (d.classItem package outer spec)) = fieldKeys d.items :=
    (fieldKeys_push _ _).trans (List.append_nil _)
  rw [pushClass_items]
  unfold withClass
  cases outer with
  | none => rw [fieldKeys_modify _ _ (fieldKey?_linkPackage _), hpush]
  | some o =>
    rw [fieldKeys_modify _ _ (fieldKey?_linkClass _ _), fieldKeys_modify _ _ (fieldKey?_linkPackage _),
      hpush]

theorem fieldKeys_pushMethod (d : Draft) (owner : ItemId) (info : ClassInfo) (isConstructor : Bool)
    (spec : MethodSpec) :
    fieldKeys (d.pushMethod owner info isConstructor spec).items = fieldKeys d.items := by
  rw [pushMethod_items, fieldKeys_withMember (fieldKey?_linkClass _ _)
    fun _ hp => fieldKey?_parameterItems hp]
  cases isConstructor <;> exact List.append_nil _

theorem fieldKeys_pushField (d : Draft) (owner : ItemId) (spec : FieldSpec) :
    fieldKeys (d.pushField owner spec).items = fieldKeys d.items ++ [(some owner, spec.name)] := by
  rw [pushField_items, fieldKeys_withMember (fieldKey?_linkClass _ _) fun _ hp => by cases hp]
  rfl

/-! ## Runs of additions -/

variable {α : Type} {id package : ItemId}

theorem each_fieldKeys {add : α → Addition ItemId} {keys : α → List (Option ItemId × String)}
    (hadd : ∀ {d d' : Draft} {x : α} {id : ItemId}, d.add (add x) = (.ok id, d') →
      fieldKeys d'.items = fieldKeys d.items ++ keys x) {specs : List α}
    (hok : d.add (Addition.each add specs) = (.ok ⟨⟩, d')) :
    fieldKeys d'.items = fieldKeys d.items ++ specs.flatMap keys := by
  induction specs generalizing d with
  | nil =>
    cases hok
    exact (List.append_nil _).symm
  | cons spec rest ih =>
    rw [Addition.each] at hok
    obtain ⟨_, d₁, hspec, hrest⟩ := add_bind_eq_ok hok
    rw [ih hrest, hadd hspec, List.flatMap_cons, List.append_assoc]

theorem constructor_fieldKeys {owner : ItemId} {spec : MethodSpec}
    (hok : d.add (Addition.constructor owner spec) = (.ok id, d')) :
    fieldKeys d'.items = fieldKeys d.items ++ [] := by
  obtain ⟨info, _, rfl⟩ := add_constructor_eq_ok hok
  rw [fieldKeys_pushMethod, List.append_nil]

theorem method_fieldKeys {owner : ItemId} {spec : MethodSpec}
    (hok : d.add (Addition.method owner spec) = (.ok id, d')) :
    fieldKeys d'.items = fieldKeys d.items ++ [] := by
  obtain ⟨info, _, rfl⟩ := add_method_eq_ok hok
  rw [fieldKeys_pushMethod, List.append_nil]

theorem field_fieldKeys {owner : ItemId} {spec : FieldSpec}
    (hok : d.add (Addition.field owner spec) = (.ok id, d')) :
    fieldKeys d'.items = fieldKeys d.items ++ [(some owner, spec.name)] := by
  obtain rfl := add_field_eq_ok hok
  exact fieldKeys_pushField d owner spec

/-- The new class is the last item, and no field has been added. -/
theorem classHead_fieldKeys {outer : Option ItemId} {spec : ClassSpec}
    (hok : d.add (Addition.classHead package outer spec) = (.ok id, d')) :
    id = d.nextId ∧ fieldKeys d'.items = fieldKeys d.items := by
  obtain ⟨_, rfl, rfl⟩ := add_classHead_eq_ok hok
  exact ⟨rfl, fieldKeys_pushClass d package outer spec⟩

/-- New names in a class that has no fields keep the keys distinct. -/
theorem nodup_append_names {keys : List (Option ItemId × String)} {names : List String}
    (hkeys : keys.Nodup) (hnames : names.Nodup) (hno : ∀ key ∈ keys, key.1 ≠ some id) :
    (keys ++ names.map fun name => (some id, name)).Nodup := by
  refine List.nodup_append.mpr ⟨hkeys, ?_, fun key hkey key' hkey' he => ?_⟩
  · exact List.Nodup.map (fun _ _ h => (Prod.mk.inj h).2) hnames
  · obtain ⟨name, _, rfl⟩ := List.mem_map.mp hkey'
    exact hno key hkey (congrArg Prod.fst he)

theorem Grows.of_add {a : Addition α} {x : α} (hg : Grows d (d.add a).2)
    (hok : d.add a = (.ok x, d')) : Grows d d' := by
  rwa [hok] at hg

mutual
/-- A class with distinct fields, and distinct fields in the classes in it, keeps the keys distinct. -/
theorem classIn_nodup {d d' : Draft} (h : d.WellFormed) {package : ItemId} {outer : Option ItemId}
    (hpackage : PackageAt d.shapes package)
    (houter : ∀ o, outer = some o → ClassAt d.shapes o package) (hkeys : (fieldKeys d.items).Nodup) :
    (spec : ClassSpec) → spec.DistinctFields → {id : ItemId} →
    d.add (Addition.classIn package outer spec) = (.ok id, d') → (fieldKeys d'.items).Nodup
  | ⟨name, kind, modifiers, flags, isStub, superclass, interfaces, typeParameters, constructors,
      methods, fields, nested⟩, hspec, id, hok => by
    cases hspec with | intro hnames hnested => ?_
    rw [Addition.classIn] at hok
    obtain ⟨c, d₁, hhead, hok⟩ := add_bind_eq_ok hok
    obtain ⟨hgrows, hclass⟩ := classHead_grows h hpackage houter
      ⟨name, kind, modifiers, flags, isStub, superclass, interfaces, typeParameters, constructors,
        methods, fields, nested⟩
    have hc := hclass c d₁ hhead
    have h₁ := hgrows.of_add hhead
    obtain ⟨rfl, hkeys₁⟩ := classHead_fieldKeys hhead
    obtain ⟨_, d₂, hconstructors, hok⟩ := add_bind_eq_ok hok
    have h₂ := (each_grows (fun d x h => constructor_grows h _ x) h₁.wellFormed _).of_add hconstructors
    have hkeys₂ := each_fieldKeys constructor_fieldKeys hconstructors
    obtain ⟨_, d₃, hmethods, hok⟩ := add_bind_eq_ok hok
    have h₃ := (each_grows (fun d x h => method_grows h _ x) h₂.wellFormed _).of_add hmethods
    have hkeys₃ := each_fieldKeys method_fieldKeys hmethods
    obtain ⟨_, d₄, hfields, hok⟩ := add_bind_eq_ok hok
    have h₄ := (each_grows (fun d x h => field_grows h _ x) h₃.wellFormed _).of_add hfields
    have hkeys₄ := each_fieldKeys field_fieldKeys hfields
    obtain ⟨_, d₅, hinner, hok⟩ := add_bind_eq_ok hok
    cases hok
    -- No field is declared in the new class before its own fields are.
    have hold : fieldKeys d₃.items = fieldKeys d.items := by
      simp only [hkeys₃, hkeys₂, hkeys₁, List.flatMap_eq_nil_iff.mpr fun _ _ => rfl, List.append_nil]
    have hfresh : ∀ key ∈ fieldKeys d₃.items, key.1 ≠ some d.nextId := by
      intro key hkey heq
      rw [hold] at hkey
      obtain ⟨owner, howner, hlt⟩ := Arena.WellFormed.fieldKeys h hkey
      rw [howner] at heq
      cases heq
      exact Nat.lt_irrefl _ hlt
    have hmap : fields.flatMap (fun f => [(some d.nextId, f.name)]) =
        (fields.map (·.name)).map fun name => (some d.nextId, name) := by
      rw [List.map_map]
      exact List.map_eq_flatMap.symm
    have hnodup₄ : (fieldKeys d₄.items).Nodup := by
      rw [hkeys₄, hmap]
      exact nodup_append_names (hold ▸ hkeys) hnames hfresh
    have hg := h₁.trans (h₂.trans (h₃.trans h₄))
    exact classesIn_nodup h₄.wellFormed (hg.packageAt hpackage)
      ((h₂.trans (h₃.trans h₄)).classAt hc) hnodup₄ nested hnested hinner

theorem classesIn_nodup {d d' : Draft} (h : d.WellFormed) {package outer : ItemId}
    (hpackage : PackageAt d.shapes package) (houter : ClassAt d.shapes outer package)
    (hkeys : (fieldKeys d.items).Nodup) : (specs : List ClassSpec) →
    (∀ n ∈ specs, n.DistinctFields) →
    d.add (Addition.classesIn package outer specs) = (.ok ⟨⟩, d') → (fieldKeys d'.items).Nodup
  | [], _, hok => by
    rw [Addition.classesIn] at hok
    cases hok
    exact hkeys
  | spec :: rest, hspecs, hok => by
    rw [Addition.classesIn] at hok
    obtain ⟨_, d₁, hspec, hrest⟩ := add_bind_eq_ok hok
    have hg := (classIn_grows h hpackage houter.of_some spec).of_add hspec
    have hnodup := classIn_nodup h hpackage houter.of_some hkeys spec
      (hspecs spec List.mem_cons_self) hspec
    exact classesIn_nodup hg.wellFormed (hg.packageAt hpackage) (hg.classAt houter) hnodup rest
      (fun n hn => hspecs n (List.mem_cons_of_mem _ hn)) hrest
end

/-- What single additions keep a run keeps. -/
theorem each_keeps {add : α → Addition ItemId} {P : Draft → Prop} {Good : α → Prop}
    (hadd : ∀ {d d' : Draft} {x : α} {id : ItemId}, P d → Good x → d.add (add x) = (.ok id, d') → P d')
    (hd : P d) {specs : List α} (hspecs : ∀ x ∈ specs, Good x)
    (hok : d.add (Addition.each add specs) = (.ok ⟨⟩, d')) : P d' := by
  induction specs generalizing d with
  | nil =>
    cases hok
    exact hd
  | cons spec rest ih =>
    rw [Addition.each] at hok
    obtain ⟨_, d₁, hspec, hrest⟩ := add_bind_eq_ok hok
    exact ih (hadd hd (hspecs spec List.mem_cons_self) hspec)
      (fun x hx => hspecs x (List.mem_cons_of_mem _ hx)) hrest

/-- A well-formed draft whose fields have distinct keys. -/
structure FieldsApart (d : Draft) : Prop where
  wellFormed : d.WellFormed
  nodup : (fieldKeys d.items).Nodup

theorem topLevelClass_fieldsApart {spec : ClassSpec} (hd : d.FieldsApart) (hspec : spec.DistinctFields)
    (hok : d.add (Addition.topLevelClass package spec) = (.ok id, d')) : d'.FieldsApart := by
  have hg := (topLevelClass_grows hd.wellFormed package spec).of_add hok
  obtain ⟨⟨info, hinfo⟩, hok⟩ := add_topLevelClass_eq_ok hok
  have hno : ∀ o, (none : Option ItemId) = some o → ClassAt d.shapes o package := nofun
  exact ⟨hg.wellFormed, classIn_nodup hd.wellFormed (packageInfo_ok hinfo) hno hd.nodup spec hspec hok⟩

theorem packageSpec_fieldsApart {spec : PackageSpec} (hd : d.FieldsApart)
    (hspec : ∀ c ∈ spec.classes, c.DistinctFields)
    (hok : d.add (Addition.packageSpec spec) = (.ok id, d')) : d'.FieldsApart := by
  rw [Addition.packageSpec] at hok
  obtain ⟨p, d₁, hpackage, hok⟩ := add_bind_eq_ok hok
  have hg := (package_grows hd.wellFormed spec.name spec.flags spec.isStub).of_add hpackage
  have hsame : fieldKeys d₁.items = fieldKeys d.items := by
    rcases add_package_eq_ok hpackage with ⟨_, rfl⟩ | ⟨_, _, rfl⟩
    · rfl
    · exact fieldKeys_pushPackage d spec.name spec.flags spec.isStub
  have hd₁ : d₁.FieldsApart := ⟨hg.wellFormed, hsame ▸ hd.nodup⟩
  obtain ⟨_, d₂, hclasses, hok⟩ := add_bind_eq_ok hok
  cases hok
  exact each_keeps topLevelClass_fieldsApart hd₁ hspec hclasses

/-- The fields of what a document declares have distinct keys. -/
theorem fieldsApart_of_distinctFields {snapshot : Snapshot} {readFrom : String}
    (hfields : snapshot.DistinctFields)
    (hok : (snapshot.emptyDraft readFrom).add (Addition.each Addition.packageSpec snapshot.packages) =
      (.ok ⟨⟩, d)) : d.FieldsApart := by
  have hempty : (snapshot.emptyDraft readFrom).FieldsApart :=
    ⟨(Arena.WellFormed.empty : Arena.WellFormed #[] ∅ ∅), List.nodup_nil⟩
  exact each_keeps packageSpec_fieldsApart hempty hfields hok

end Draft

namespace Surface

/-- No class of the surface has two fields of one name. -/
def FieldsApart (s : Surface) : Prop := (fieldKeys s.items).Nodup

variable {s : Surface} {c d e : Decl}

theorem fieldKey?_of_member (hs : s.WellFormed) (hc : s.Declares c) (hd : d ∈ c.members .fields) :
    d.item.fieldKey? = some (some c.id, d.name) := by
  have hparent := parent_of_member hs hc hd Slot.noConfusion Slot.noConfusion
  have hrole := role_of_member hs hc .field hd
  unfold Item.fieldKey? Decl.name
  cases hpay : d.item.payload <;> rw [hpay] at hrole <;> cases hrole
  simp only [hparent, Payload.name]

theorem FieldsApart.index_le (h : s.FieldsApart) (hd : s.Declares d) (he : s.Declares e)
    {key : Option ItemId × String} (hkd : d.item.fieldKey? = some key)
    (hke : e.item.fieldKey? = some key) : e.id.index ≤ d.id.index := by
  by_contra hlt
  have hpair := List.pairwise_iff_getElem.mp (List.pairwise_filterMap.mp h)
  obtain ⟨hld, hgd⟩ := Array.getElem?_eq_some_iff.mp hd.getElem?
  obtain ⟨hle, hge⟩ := Array.getElem?_eq_some_iff.mp he.getElem?
  refine hpair d.id.index e.id.index hld hle (Nat.lt_of_not_le hlt) key ?_ key ?_ rfl
  · rw [Array.getElem_toList, hgd, hkd]
  · rw [Array.getElem_toList, hge, hke]

/-- The name singles out a field of a class. -/
theorem FieldsApart.eq_of_name (h : s.FieldsApart) (hs : s.WellFormed) (hc : s.Declares c)
    (hd : d ∈ c.members .fields) (he : e ∈ c.members .fields) (hname : d.name = e.name) : d = e := by
  have hdd := ((mem_members hs hc).mp hd).1
  have hde := ((mem_members hs hc).mp he).1
  have hkd := fieldKey?_of_member hs hc hd
  have hke := fieldKey?_of_member hs hc he
  rw [← hname] at hke
  have hindex := Nat.le_antisymm (h.index_le hde hdd hke hkd) (h.index_le hdd hde hkd hke)
  exact hdd.eq_of_id hde (congrArg ItemId.mk hindex)

end Surface

end ApiSurface
