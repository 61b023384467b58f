import ApiSurface.Proofs.RepeatedSignatures
import ApiSurface.Proofs.Reordering
import ApiSurface.Proofs.Restatements

/-! # Declared exceptions

A method of a built surface throws what was declared for it, in canonical order. The order is total on
texts, although many types share a base name, so what two methods throw is the same iff the declared lists
hold the same types equally often. A copy throws what was declared for the method that it is a copy of. -/
namespace ApiSurface

open Arena Surface

/-! ## The canonical order -/

namespace TypeRef

variable {a b : TypeRef} {l l' : List TypeRef}

/-- The base name of the type is smaller, or it is the same and the text is not greater. -/
def Precedes (a b : TypeRef) : Prop :=
  a.baseName < b.baseName ∨ a.baseName = b.baseName ∧ a.text ≤ b.text

theorem isLE_canonicalOrder : (canonicalOrder a b).isLE = true ↔ a.Precedes b := by
  have hlt : ∀ s t : String, compare s t = .lt ↔ s < t := fun _ _ => compareOfLessAndEq_eq_lt
  have hle : ∀ s t : String, (compare s t).isLE = true ↔ s ≤ t := fun _ _ =>
    isLE_compareOfLessAndEq String.le_antisymm String.not_le String.le_total
  rw [canonicalOrder, Ordering.isLE_then_iff_or, hlt, Std.LawfulEqCmp.compare_eq_iff_eq, hle, Precedes]

theorem perm_canonicalSort (l : List TypeRef) : (canonicalSort l).Perm l := List.mergeSort_perm l _

theorem pairwise_canonicalSort (l : List TypeRef) : (canonicalSort l).Pairwise Precedes :=
  (List.pairwise_mergeSort canonicalOrder_trans canonicalOrder_total l).imp isLE_canonicalOrder.mp

/-- Lists are sorted into the same list iff they hold the same types equally often. -/
theorem canonicalSort_eq_iff : canonicalSort l = canonicalSort l' ↔ l.Perm l' := by
  refine ⟨fun h => ?_, canonicalSort_perm⟩
  have hright := perm_canonicalSort l'
  rw [← h] at hright
  exact (perm_canonicalSort l).symm.trans hright

end TypeRef

/-! ## What a draft holds -/

/-- What a method or a constructor throws, and the method that it is a copy of, if it is one. -/
def Item.throwsClause? (item : Item) : Option (List TypeRef × Option ItemId) :=
  match item.payload with
  | .method info | .constructor info => some (info.throws, info.inheritedMethod)
  | _ => none

namespace Arena

variable {α : Type} {items : Array Item} {link : Item → Item} {f : Item → Option α}

theorem bind_push (items : Array Item) (item : Item) (f : Item → Option α) (i : Nat) :
    (items.push item)[i]?.bind f = if i = items.size then f item else items[i]?.bind f := by
  rw [Array.getElem?_push]
  split <;> rfl

theorem bind_modify (items : Array Item) (j : Nat) (hlink : ∀ item, f (link item) = f item) (i : Nat) :
    (items.modify j link)[i]?.bind f = items[i]?.bind f := by
  rw [Array.getElem?_modify]
  split
  · rw [Option.bind_map]
    exact congrArg (Option.bind _) (funext hlink)
  · rfl

/-- With one more member nothing else is to be seen if its parameters are not. -/
theorem bind_withMember {member : Item} {parameters : List Item} {owner : ItemId}
    (hparameters : ∀ p ∈ parameters, f p = none) (hlink : ∀ item, f (link item) = f item) (i : Nat) :
    (withMember items member parameters owner link)[i]?.bind f =
      if i = items.size then f member else items[i]?.bind f := by
  rw [withMember, bind_modify _ _ hlink, ← bind_push, Array.getElem?_append]
  split
  · rfl
  · next hge =>
    rw [Array.getElem?_eq_none (Nat.le_of_not_lt hge), List.getElem?_toArray]
    cases hp : parameters[i - (items.push member).size]? with
    | none => rfl
    | some p => exact hparameters p (List.mem_of_getElem? hp)

theorem bind_withClass {item : Item} {package : ItemId} {outer : Option ItemId}
    {linkPackage linkOuter : Item → Item} (hp : ∀ item, f (linkPackage item) = f item)
    (ho : ∀ item, f (linkOuter item) = f item) (i : Nat) :
    (withClass items item package linkPackage outer linkOuter)[i]?.bind f =
      if i = items.size then f item else items[i]?.bind f := by
  unfold withClass
  cases outer with
  | none => rw [bind_modify _ _ hp, bind_push]
  | some o => rw [bind_modify _ _ ho, bind_modify _ _ hp, bind_push]

theorem bind_of_none {item : Item} (h : f item = none) (i : Nat) :
    (if i = items.size then f item else items[i]?.bind f) = items[i]?.bind f := by
  split
  · next hi =>
    rw [hi, h, Array.getElem?_eq_none (Nat.le_refl _)]
    rfl
  · rfl

end Arena

namespace Draft

/-- What stands in a draft at this place, as far as methods and constructors go. -/
def throwsClause? (d : Draft) (id : ItemId) : Option (List TypeRef × Option ItemId) :=
  d.items[id.index]?.bind Item.throwsClause?

/-- At `id` stands a method or a constructor that was added to the draft with this spec. -/
inductive AddedAt : Draft → ItemId → MethodSpec → Prop where
  | here (d : Draft) (owner : ItemId) (info : ClassInfo) (isConstructor : Bool) (spec : MethodSpec) :
      AddedAt (d.pushMethod owner info isConstructor spec) d.nextId spec
  | package {d : Draft} {id : ItemId} {spec : MethodSpec} (name : String) (flags : ItemFlags)
      (isStub : Bool) (h : AddedAt d id spec) : AddedAt (d.pushPackage name flags isStub) id spec
  | ofClass {d : Draft} {id : ItemId} {spec : MethodSpec} (package : ItemId) (outer : Option ItemId)
      (other : ClassSpec) (h : AddedAt d id spec) : AddedAt (d.pushClass package outer other) id spec
  | method {d : Draft} {id : ItemId} {spec : MethodSpec} (owner : ItemId) (info : ClassInfo)
      (isConstructor : Bool) (other : MethodSpec) (h : AddedAt d id spec) :
      AddedAt (d.pushMethod owner info isConstructor other) id spec
  | field {d : Draft} {id : ItemId} {spec : MethodSpec} (owner : ItemId) (other : FieldSpec)
      (h : AddedAt d id spec) : AddedAt (d.pushField owner other) id spec

theorem throwsClause?_linkClass (slot : Slot) (id : ItemId) (item : Item) :
    (linkClass slot id item).throwsClause? = item.throwsClause? := by
  unfold linkClass Item.throwsClause?
  cases item.payload <;> rfl

theorem throwsClause?_linkPackage (id : ItemId) (item : Item) :
    (linkPackage id item).throwsClause? = item.throwsClause? := by
  unfold linkPackage Item.throwsClause?
  cases item.payload <;> rfl

variable (d : Draft) (id : ItemId)

theorem throwsClause?_pushPackage (name : String) (flags : ItemFlags) (isStub : Bool) :
    (d.pushPackage name flags isStub).throwsClause? id = d.throwsClause? id :=
  (bind_push ..).trans (bind_of_none rfl _)

theorem throwsClause?_pushClass (package : ItemId) (outer : Option ItemId) (spec : ClassSpec) :
    (d.pushClass package outer spec).throwsClause? id = d.throwsClause? id := by
  rw [throwsClause?, pushClass_items,
    bind_withClass (throwsClause?_linkPackage _) (throwsClause?_linkClass _ _)]
  exact bind_of_none rfl _

theorem throwsClause?_pushField (owner : ItemId) (spec : FieldSpec) :
    (d.pushField owner spec).throwsClause? id = d.throwsClause? id := by
  rw [throwsClause?, pushField_items,
    bind_withMember (List.forall_mem_nil _) (throwsClause?_linkClass _ _)]
  exact bind_of_none rfl _

theorem throwsClause?_pushMethod (owner : ItemId) (info : ClassInfo) (isConstructor : Bool)
    (spec : MethodSpec) : (d.pushMethod owner info isConstructor spec).throwsClause? id =
      if id = d.nextId then some (spec.throws, none) else d.throwsClause? id := by
  have hparameters : ∀ p ∈ parameterItems d.nextId (d.items.size + 1) 0 spec.parameters,
      p.throwsClause? = none := by
    intro p hp
    obtain ⟨parameter, hpay⟩ := payload_parameterItems hp
    rw [Item.throwsClause?, hpay]
  have hmember : (d.methodItem owner info isConstructor spec).throwsClause? = some (spec.throws, none) := by
    cases isConstructor <;> rfl
  have hid : id.index = d.items.size ↔ id = d.nextId := ⟨congrArg ItemId.mk, congrArg ItemId.index⟩
  rw [throwsClause?, pushMethod_items, bind_withMember hparameters (throwsClause?_linkClass _ _), hmember]
  exact if_congr hid rfl rfl

theorem throwsClause?_nextId : d.throwsClause? d.nextId = none := by
  rw [throwsClause?, nextId, Array.getElem?_eq_none (Nat.le_refl _)]
  rfl

variable {d id}

/-- What was added throws what its spec says, and is no copy. -/
theorem AddedAt.throwsClause?_eq {spec : MethodSpec} (h : d.AddedAt id spec) :
    d.throwsClause? id = some (spec.throws, none) := by
  induction h with
  | here => rw [throwsClause?_pushMethod, if_pos rfl]
  | package _ _ _ _ ih => rw [throwsClause?_pushPackage, ih]
  | ofClass _ _ _ _ ih => rw [throwsClause?_pushClass, ih]
  | field _ _ _ ih => rw [throwsClause?_pushField, ih]
  | @method d id _ _ _ _ _ _ ih =>
    have hne : id ≠ d.nextId := by
      rintro rfl
      cases (throwsClause?_nextId d).symm.trans ih
    rw [throwsClause?_pushMethod, if_neg hne, ih]

/-- All methods and constructors have been added with a spec. -/
theorem stable_addedAt :
    Stable fun d => ∀ id clause, d.throwsClause? id = some clause → ∃ spec, d.AddedAt id spec where
  package d name flags isStub h id clause hc := by
    rw [throwsClause?_pushPackage] at hc
    obtain ⟨spec, hspec⟩ := h id clause hc
    exact ⟨spec, hspec.package name flags isStub⟩
  ofClass d package outer other h id clause hc := by
    rw [throwsClause?_pushClass] at hc
    obtain ⟨spec, hspec⟩ := h id clause hc
    exact ⟨spec, hspec.ofClass package outer other⟩
  method d owner info isConstructor other h id clause hc := by
    rw [throwsClause?_pushMethod] at hc
    split at hc
    · next hid => exact ⟨other, hid ▸ .here d owner info isConstructor other⟩
    · obtain ⟨spec, hspec⟩ := h id clause hc
      exact ⟨spec, hspec.method owner info isConstructor other⟩
  field d owner other h id clause hc := by
    rw [throwsClause?_pushField] at hc
    obtain ⟨spec, hspec⟩ := h id clause hc
    exact ⟨spec, hspec.field owner other⟩

end Draft

/-! ## What a surface says -/

theorem throwsClause?_canonicalItem (item : Item) : (canonicalItem item).throwsClause? =
    item.throwsClause?.map fun clause => (TypeRef.canonicalSort clause.1, clause.2) := by
  unfold canonicalItem Item.throwsClause?
  cases item.payload <;> rfl

theorem throwsClause?_core (item : Item) : item.core.throwsClause? = item.throwsClause? := by
  unfold Item.core Item.throwsClause?
  cases item.payload <;> rfl

namespace Surface

variable {s : Surface} {m x : Decl} {throws : List TypeRef} {source : Option ItemId}

theorem throwsClause?_of_asMethod? {info : MethodInfo} (h : m.asMethod? = some info) :
    m.item.throwsClause? = some (info.throws, info.inheritedMethod) := by
  unfold Decl.asMethod? at h
  unfold Item.throwsClause?
  cases hp : m.item.payload with
  | method info' | constructor info' =>
    rw [hp] at h
    cases h
    rfl
  | _ => rw [hp] at h; cases h

theorem throwsClause?_of_asMethod?_eq_none (h : m.asMethod? = none) : m.item.throwsClause? = none := by
  unfold Decl.asMethod? at h
  unfold Item.throwsClause?
  cases hp : m.item.payload with
  | method info | constructor info => rw [hp] at h; cases h
  | _ => rfl

theorem throwsClause?_noteIn (ids : List ItemId) (item : Item) :
    (noteIn ids item).throwsClause? = item.throwsClause? := by
  rcases exists_noteIn ids item with h | ⟨info, hp, h⟩
  · rw [h]
  · rw [h, Item.throwsClause?, Item.throwsClause?, hp]

theorem throwsClause?_listing (item : Item) (methods fields : List ItemId) :
    (item.listing methods fields).throwsClause? = item.throwsClause? := by
  unfold Item.listing Item.throwsClause?
  cases item.payload <;> rfl

/-- A copy throws what the method throws that it is a copy of. -/
theorem throwsClause?_copiedItem {c : Decl} {id : ItemId} {parameters overridden : List ItemId}
    (hrole : m.item.payload.role = .method ∨ m.item.payload.role = .field)
    (hc : (m.copiedItem c id parameters overridden).throwsClause? = some (throws, source)) :
    source = some m.id ∧ ∃ source', m.item.throwsClause? = some (throws, source') := by
  unfold Decl.copiedItem Decl.copiedPayload Item.throwsClause? at hc
  unfold Item.throwsClause?
  cases hp : m.item.payload with
  | method info =>
    rw [hp] at hc
    cases hc
    exact ⟨rfl, info.inheritedMethod, rfl⟩
  | field info => rw [hp] at hc; cases hc
  | _ => rw [hp] at hrole; rcases hrole with hrole | hrole <;> cases hrole

/-- Where a copy has its parameters nothing throws. -/
theorem throwsClause?_of_mem_parameters (hs : s.WellFormed) (hm : s.Declares m) {items : Array Item}
    {c : Decl} {id q : ItemId} (hcopy : HasCopy items c m id)
    (hrole : m.item.payload.role = .method ∨ m.item.payload.role = .field)
    (hq : q ∈ slotAt items .parameters id.index) {item : Item} (hitem : items[q.index]? = some item) :
    item.throwsClause? = none := by
  obtain ⟨parameters, overridden, hat, hparameters⟩ := hcopy
  rw [slotAt_of_getElem? hat] at hq
  have hmem : q ∈ parameters := by
    unfold Decl.copiedItem Decl.copiedPayload at hq
    cases hp : m.item.payload with
    | method info => rwa [hp] at hq
    | field info => rw [hp] at hq; exact (List.not_mem_nil hq).elim
    | _ => rw [hp] at hrole; rcases hrole with hrole | hrole <;> cases hrole
  obtain ⟨p, hp, hpq⟩ := exists_mem_left hparameters hmem
  rw [hitem, Option.some.injEq] at hpq
  rw [hpq]
  exact throwsClause?_of_asMethod?_eq_none (asMethod?_of_parameter hs hm hp)

/-- A method stood there before classes listed what they inherit, or it is a copy of a method that did. -/
theorem exists_source_of_completed (hs : s.WellFormed) (hx : s.completed.Declares x)
    (hc : x.item.throwsClause? = some (throws, source)) :
    ∃ m, s.Declares m ∧ (m.id = x.id ∧ m.item.throwsClause? = some (throws, source) ∨
      source = some m.id ∧ ∃ source', m.item.throwsClause? = some (throws, source')) := by
  obtain ⟨placed, _, h⟩ := exists_takes hs
  have hnoted := map_foldl_noteOverridden throwsClause?_noteIn s.withInheritedCopies.overrides
    s.withInheritedCopies.items x.id.index
  obtain ⟨item, hitem, hclause⟩ := Option.map_eq_some_iff.mp
    (hnoted.symm.trans (congrArg (Option.map Item.throwsClause?) hx.getElem?))
  rw [hc] at hclause
  by_cases hold : x.id.index < s.size
  · have hd : s.Declares ⟨s, x.id, s.items[x.id.index]⟩ :=
      declares_of_getElem? (Array.getElem?_eq_getElem hold)
    refine ⟨_, hd, .inl ⟨rfl, ?_⟩⟩
    have hat := h.old _ hd
    rw [hitem, Option.some.injEq] at hat
    rwa [hat, throwsClause?_listing] at hclause
  · obtain ⟨y, hy, hplace⟩ := h.covered x.id.index (Nat.le_of_not_lt hold)
      (Array.getElem?_eq_some_iff.mp hitem).1
    obtain ⟨hd, hrole⟩ := h.sources y hy
    obtain ⟨_, hcopy⟩ := h.copies y hy
    rcases hplace with hid | hparameter
    · obtain ⟨parameters, overridden, hat, _⟩ := hcopy
      rw [hid, hitem, Option.some.injEq] at hat
      rw [hat] at hclause
      exact ⟨y.source, hd, .inr (throwsClause?_copiedItem hrole hclause)⟩
    · rw [throwsClause?_of_mem_parameters hs hd hcopy hrole hparameter hitem] at hclause
      cases hclause

end Surface

/-! ## What recipes declare -/

namespace Recipe

variable {r : Recipe} {serial : Nat} {location : String} {m : Decl} {spec spec' : MethodSpec}

/-- The method was declared with this spec, or it is a copy of a method that was. -/
def DeclaresWith (r : Recipe) (location : String) (m : Decl) (spec : MethodSpec) : Prop :=
  (r.draft location).AddedAt m.origin.id spec

/-- What a draft says of a method is what the spec declares. -/
theorem DeclaresWith.throws_of_clause (h : r.DeclaresWith location m spec) {throws : List TypeRef}
    (hc : (r.draft location).throwsClause? m.origin.id = some (throws, none)) : spec.throws = throws :=
  congrArg Prod.fst (Option.some.inj (h.throwsClause?_eq.symm.trans hc))

/-- No two specs of a method differ in what it throws. -/
theorem DeclaresWith.throws_eq (h : r.DeclaresWith location m spec)
    (h' : r.DeclaresWith location m spec') : spec.throws = spec'.throws :=
  h.throws_of_clause h'.throwsClause?_eq

theorem exists_addedAt (r : Recipe) (location : String) {x : Decl} {throws : List TypeRef}
    {source : Option ItemId} (hx : (r.draft location).toSurface.Declares x)
    (hc : x.item.throwsClause? = some (throws, source)) : ∃ spec, (r.draft location).AddedAt x.id spec ∧
      throws = TypeRef.canonicalSort spec.throws ∧ source = none := by
  have hall : ∀ id clause, (r.draft location).throwsClause? id = some clause →
      ∃ spec, (r.draft location).AddedAt id spec :=
    Draft.stable_addedAt.draft r fun id clause hc => by simp [Draft.throwsClause?] at hc
  obtain ⟨item, hitem, hcanonical⟩ :=
    Option.map_eq_some_iff.mp ((Array.getElem?_map ..).symm.trans hx.getElem?)
  rw [← hcanonical, throwsClause?_canonicalItem] at hc
  obtain ⟨clause, hclause, heq⟩ := Option.map_eq_some_iff.mp hc
  have hdraft : (r.draft location).throwsClause? x.id = some clause := by
    rw [Draft.throwsClause?, hitem]
    exact hclause
  obtain ⟨spec, hspec⟩ := hall x.id clause hdraft
  obtain rfl := Option.some.inj (hdraft.symm.trans hspec.throwsClause?_eq)
  obtain ⟨rfl, rfl⟩ := Prod.mk.inj heq
  exact ⟨spec, hspec, rfl, rfl⟩

/-- A method of a built surface throws what was declared for it, in canonical order. -/
theorem exists_declaresWith (hm : (r.build serial location).Declares m) {info : MethodInfo}
    (hinfo : m.asMethod? = some info) :
    ∃ spec, r.DeclaresWith location m spec ∧ info.throws = TypeRef.canonicalSort spec.throws := by
  have hs := r.toSurface_wellFormed location
  obtain ⟨x, hx, hid⟩ := r.exists_completed serial location hm
  have hclause : x.item.throwsClause? = some (info.throws, info.inheritedMethod) := by
    rw [← throwsClause?_of_asMethod? hinfo]
    refine ((r.completed_restates_build serial location).observe (f := fun payload =>
      ({ x.item with payload } : Item).throwsClause?) hx hm hid.symm fun payload => ?_).symm
    exact throwsClause?_core { x.item with payload }
  obtain ⟨y, hy, hsource⟩ := exists_source_of_completed hs hx hclause
  rcases hsource with ⟨hyx, hyc⟩ | ⟨hsome, source', hyc⟩
  · obtain ⟨spec, hspec, hthrows, hnone⟩ := r.exists_addedAt location hy hyc
    have horigin : m.origin = m := by
      rw [Decl.origin, hinfo, Option.bind_some, hnone, Option.bind_none, Option.getD_none]
    refine ⟨spec, ?_, hthrows⟩
    rwa [DeclaresWith, horigin, ← hid, ← hyx]
  · obtain ⟨spec, hspec, hthrows, _⟩ := r.exists_addedAt location hy hyc
    obtain ⟨o, ho, hoy⟩ := (r.draft_restates_build serial location).exists_declares hy
    have horigin : m.origin = o := by
      rw [Decl.origin, hinfo, Option.bind_some, hsome, Option.bind_some, hm.surface, ← hoy, ho,
        Option.getD_some]
    refine ⟨spec, ?_, hthrows⟩
    rwa [DeclaresWith, horigin, hoy]

/-- Two methods throw the same iff the lists that were declared for them hold the same types equally
often. -/
theorem throws_eq_iff {r' : Recipe} {serial' : Nat} {location' : String} {m' : Decl}
    {info info' : MethodInfo} (hm : (r.build serial location).Declares m) (hinfo : m.asMethod? = some info)
    (hm' : (r'.build serial' location').Declares m') (hinfo' : m'.asMethod? = some info')
    (h : r.DeclaresWith location m spec) (h' : r'.DeclaresWith location' m' spec') :
    info.throws = info'.throws ↔ spec.throws.Perm spec'.throws := by
  obtain ⟨found, hfound, hthrows⟩ := exists_declaresWith hm hinfo
  obtain ⟨found', hfound', hthrows'⟩ := exists_declaresWith hm' hinfo'
  rw [hthrows, hthrows', TypeRef.canonicalSort_eq_iff, h.throws_eq hfound, h'.throws_eq hfound']

end Recipe

end ApiSurface
