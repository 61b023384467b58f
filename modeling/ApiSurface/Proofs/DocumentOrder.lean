import ApiSurface.Proofs.Described
import ApiSurface.Proofs.Related

/-! # Documents are laid out in order

The items of a draft stand in the order of the document, each with the path that its spec has there, and
every class lists its constructors, methods and fields in that order. An addition appends items and changes
no list of members but that of the class it adds to, so the lists of a class are complete when the addition
of the class ends. -/
namespace ApiSurface

open Arena Surface

/-! ## Single additions -/

namespace Arena

theorem map_withMember {f link : Item → Item} (hcomm : ∀ item, f (link item) = link (f item))
    (items : Array Item) (member : Item) (parameters : List Item) (owner : ItemId) :
    (withMember items member parameters owner link).map f =
      withMember (items.map f) (f member) (parameters.map f) owner link := by
  have hmap : (items.push member ++ parameters.toArray).map f =
      (items.map f).push (f member) ++ (parameters.map f).toArray := by simp
  unfold withMember
  apply Array.ext_getElem?
  intro i
  rw [← hmap, Array.getElem?_map, Array.getElem?_modify, Array.getElem?_modify, Array.getElem?_map]
  split
  · rw [Option.map_map, Option.map_map]
    exact congrArg (Option.map · _) (funext hcomm)
  · rfl

section WithClass

variable {α : Type} {items : Array Item} {item : Item} {package : ItemId} {outer : Option ItemId}
  {linkPackage linkOuter : Item → Item}

theorem getElem?_withClass_old {f : Item → α} (hp : ∀ item, f (linkPackage item) = f item)
    (ho : ∀ item, f (linkOuter item) = f item) {i : Nat} (hi : i < items.size) :
    (withClass items item package linkPackage outer linkOuter)[i]?.map f = items[i]?.map f := by
  have hmodify : ∀ (items : Array Item) (j : Nat) {link : Item → Item},
      (∀ item, f (link item) = f item) → (items.modify j link)[i]?.map f = items[i]?.map f := by
    intro items j link hlink
    rw [Array.getElem?_modify]
    split
    · rw [Option.map_map]
      exact congrArg (Option.map · items[i]?) (funext hlink)
    · rfl
  have hpush : (items.push item)[i]? = items[i]? := by
    rw [Array.getElem?_push_lt hi, ← Array.getElem?_eq_getElem hi]
  unfold withClass
  cases outer with
  | none => rw [hmodify _ _ hp, hpush]
  | some o => rw [hmodify _ _ ho, hmodify _ _ hp, hpush]

theorem getElem?_withClass_new (hp : package.index < items.size)
    (ho : ∀ o, outer = some o → o.index < items.size) :
    (withClass items item package linkPackage outer linkOuter)[items.size]? = some item := by
  have hpush : ((items.push item).modify package.index linkPackage)[items.size]? = some item := by
    rw [Array.getElem?_modify, if_neg (Nat.ne_of_lt hp), Array.getElem?_push_size]
  unfold withClass
  cases outer with
  | none => exact hpush
  | some o => rw [Array.getElem?_modify, if_neg (Nat.ne_of_lt (ho o rfl)), hpush]

theorem size_withMember {items : Array Item} {member : Item} {parameters : List Item} {owner : ItemId}
    {link : Item → Item} : (withMember items member parameters owner link).size =
      items.size + (parameters.length + 1) := by
  unfold withMember
  simp only [Array.size_modify, Array.size_append, Array.size_push, List.size_toArray]
  omega

theorem size_withClass : (withClass items item package linkPackage outer linkOuter).size =
    items.size + 1 := by
  unfold withClass
  cases outer <;> simp

end WithClass

end Arena

def Slot.ofMembers : Slot → Bool
  | .constructors | .methods | .fields => true
  | _ => false

namespace Draft

theorem canonicalItem_linkClass (slot : Slot) (id : ItemId) (item : Item) :
    canonicalItem (linkClass slot id item) = linkClass slot id (canonicalItem item) := by
  unfold linkClass canonicalItem
  cases item.payload <;> cases slot <;> rfl

theorem canonicalItem_linkPackage (id : ItemId) (item : Item) :
    canonicalItem (linkPackage id item) = linkPackage id (canonicalItem item) := by
  unfold linkPackage canonicalItem
  cases item.payload <;> rfl

theorem map_canonicalItem_parameterItems (method : ItemId) (rank position : Nat)
    (specs : List ParameterSpec) :
    (parameterItems method rank position specs).map canonicalItem =
      parameterItems method rank position specs := by
  induction specs generalizing rank position with
  | nil => rfl
  | cons spec rest ih =>
    rw [parameterItems, List.map_cons, ih]
    rfl

theorem parameterTypes_parameterItems (method : ItemId) (rank position : Nat)
    (specs : List ParameterSpec) :
    (parameterItems method rank position specs).filterMap Item.parameterType? =
      specs.map (·.type) := by
  induction specs generalizing rank position with
  | nil => rfl
  | cons spec rest ih =>
    rw [parameterItems, List.map_cons, ← ih (rank + 1) (position + 1)]
    rfl

theorem traits_parameterItems (method : ItemId) (rank : Nat) (specs : List ParameterSpec) :
    (parameterItems method rank 0 specs).map (fun item => (⟨item.bare, []⟩ : Trait)) =
      specs.mapIdx fun position spec => spec.trait position := by
  have h : ∀ rank position, (parameterItems method rank position specs).map
      (fun item => (⟨item.bare, []⟩ : Trait)) =
        specs.mapIdx fun k spec => spec.trait (position + k) := by
    induction specs with
    | nil => intro rank position; rfl
    | cons spec rest ih =>
      intro rank position
      rw [parameterItems, List.map_cons, ih, List.mapIdx_cons]
      simp only [Nat.add_assoc, Nat.add_comm 1]
      rfl
  simpa using h rank 0

variable {d d' : Draft}

theorem toSurface_wellFormed (h : d.WellFormed) : d.toSurface.WellFormed :=
  Arena.WellFormed.map h steady_canonicalItem

theorem size_toSurface (d : Draft) : d.toSurface.size = d.items.size := by
  rw [Surface.size, toSurface, Array.size_map]

def PathAt (d : Draft) (id : ItemId) (path : List Trait) : Prop := d.toSurface.PathAt id path

theorem PathAt.lt {id : ItemId} {path : List Trait} (h : d.PathAt id path) :
    id.index < d.items.size := by
  obtain ⟨x, hx, rfl, _⟩ := h
  rw [← size_toSurface]
  exact (Array.getElem?_eq_some_iff.mp hx.getElem?).1

/-- A well-formed draft has grown by items of the `new` paths, and the lists of members of the items before
`bound` are as they were. -/
structure Gains (d d' : Draft) (bound : Nat) (new : List (List Trait)) : Prop where
  grows : Grows d d'
  keeps : d.toSurface.Keeps d'.toSurface
  size : d'.items.size = d.items.size + new.length
  paths : ∀ (k : Nat) path, new[k]? = some path → d'.PathAt ⟨d.items.size + k⟩ path
  lists : ∀ (slot : Slot) (i : Nat), slot.ofMembers = true → i < bound →
    slotAt d'.items slot i = slotAt d.items slot i

namespace Gains

variable {bound bound' : Nat} {new new' : List (List Trait)} {id : ItemId} {path : List Trait}

theorem refl (h : d.WellFormed) : Gains d d bound [] where
  grows := .refl h
  keeps := .refl (toSurface_wellFormed h)
  size := rfl
  paths k path hk := by cases hk
  lists _ _ _ _ := rfl

theorem pathAt (h : Gains d d' bound new) (hat : d.PathAt id path) : d'.PathAt id path :=
  h.keeps.pathAt hat

theorem trans {d'' : Draft} (h : Gains d d' bound new) (h' : Gains d' d'' bound new') :
    Gains d d'' bound (new ++ new') where
  grows := h.grows.trans h'.grows
  keeps := h.keeps.trans h'.keeps
  size := by rw [h'.size, h.size, List.length_append, Nat.add_assoc]
  paths k path hk := by
    by_cases hlt : k < new.length
    · rw [List.getElem?_append_left hlt] at hk
      exact h'.pathAt (h.paths k path hk)
    · rw [List.getElem?_append_right (Nat.le_of_not_lt hlt)] at hk
      have hat := h'.paths _ path hk
      rwa [h.size, Nat.add_assoc, Nat.add_sub_cancel' (Nat.le_of_not_lt hlt)] at hat
  lists slot i hslot hi := by rw [h'.lists slot i hslot hi, h.lists slot i hslot hi]

theorem weaken (h : Gains d d' bound new) (hle : bound' ≤ bound) : Gains d d' bound' new :=
  { h with lists := fun slot i hslot hi => h.lists slot i hslot (Nat.lt_of_lt_of_le hi hle) }

theorem size_le (h : Gains d d' bound new) : d.items.size ≤ d'.items.size :=
  h.size ▸ Nat.le_add_right _ _

/-- An item is an old one, or it is new. -/
theorem pathAt_iff (h : Gains d d' bound new) : d'.PathAt id path ↔
    d.PathAt id path ∨ ∃ k, id = ⟨d.items.size + k⟩ ∧ new[k]? = some path := by
  constructor
  · rintro hat
    have hlt := hat.lt
    obtain ⟨x', hx', rfl, rfl⟩ := hat
    by_cases hold : x'.id.index < d.toSurface.size
    · have hx : d.toSurface.Declares ⟨d.toSurface, x'.id, d.toSurface.items[x'.id.index]⟩ := by
        rw [Declares, decl?, Array.getElem?_eq_getElem hold]
        rfl
      exact .inl ⟨_, hx, rfl, (h.keeps.namesake hx hx' rfl).path.symm⟩
    · rw [size_toSurface] at hold
      obtain ⟨k, hk⟩ := Nat.exists_eq_add_of_le (Nat.le_of_not_lt hold)
      have hid : x'.id = ⟨d.items.size + k⟩ := congrArg ItemId.mk hk
      have hlen : k < new.length := by
        rw [h.size] at hlt
        omega
      have hnew := List.getElem?_eq_getElem hlen
      obtain ⟨y, hy, hyid, hpath⟩ := h.paths k _ hnew
      rw [← hx'.eq_of_id hy (hid.trans hyid.symm)] at hpath
      exact .inr ⟨k, hid, hpath ▸ hnew⟩
  · rintro (hat | ⟨k, rfl, hk⟩)
    · exact h.pathAt hat
    · exact h.paths k path hk

end Gains

/-! ### Members -/

theorem memberTrait_methodItem (d : Draft) (owner : ItemId) (info : ClassInfo) (isConstructor : Bool)
    (spec : MethodSpec) : (canonicalItem (d.methodItem owner info isConstructor spec)).memberTrait
      (parameterItems d.nextId (d.items.size + 1) 0 spec.parameters) =
        spec.trait isConstructor info.simpleName := by
  unfold Item.memberTrait MethodSpec.trait
  rw [parameterTypes_parameterItems]
  cases isConstructor <;> rfl

/-- The list of a class grows by the members that are added to it. -/
theorem slotAt_pushMethod {owner package : ItemId} (hc : ClassAt d.shapes owner package)
    (info : ClassInfo) (isConstructor : Bool) (spec : MethodSpec) (slot : Slot) {i : Nat}
    (hi : i < d.items.size) : slotAt (d.pushMethod owner info isConstructor spec).items slot i =
      slotAt d.items slot i ++
        if slot = methodSlot isConstructor ∧ i = owner.index then [d.nextId] else [] := by
  rw [pushMethod_items, slotAt_withMember hc (role_methodItem d owner info isConstructor spec)
    (links_linkMethod isConstructor d.nextId) (shapes_newParameters d spec.parameters),
    if_neg (Nat.ne_of_lt hi)]
  rfl

theorem slotAt_pushField {owner package : ItemId} (hc : ClassAt d.shapes owner package)
    (spec : FieldSpec) (slot : Slot) {i : Nat} (hi : i < d.items.size) :
    slotAt (d.pushField owner spec).items slot i =
      slotAt d.items slot i ++ if slot = .fields ∧ i = owner.index then [d.nextId] else [] := by
  have hlink := links_linkClass .fields d.nextId Slot.noConfusion Slot.noConfusion
  have hrole : MemberRole (d.fieldItem owner spec).payload.role .fields := .field
  rw [pushField_items, slotAt_withMember hc hrole hlink rfl, if_neg (Nat.ne_of_lt hi)]
  rfl

theorem pushMethod_gains (h : d.WellFormed) {owner package : ItemId} {around : List Trait}
    (hc : ClassAt d.shapes owner package) (hat : d.PathAt owner around) (info : ClassInfo)
    (isConstructor : Bool) (spec : MethodSpec) :
    Gains d (d.pushMethod owner info isConstructor spec) owner.index
      (spec.paths isConstructor info.simpleName around) := by
  have hgrows := pushMethod_grows h hc info isConstructor spec
  have hlt := hat.lt
  obtain ⟨o, ho, rfl, rfl⟩ := hat
  have hitems := congrArg (Array.map canonicalItem) (pushMethod_items d o.id info isConstructor spec)
  rw [map_withMember (canonicalItem_linkClass _ _), map_canonicalItem_parameterItems] at hitems
  have hpartial : (d.pushMethod o.id info isConstructor spec).isPartial = d.isPartial := by
    rw [pushMethod_eq]
  have hps : (parameterItems d.nextId (d.items.size + 1) 0 spec.parameters).map Item.shape =
      parameterShapes ⟨d.toSurface.size⟩
        (parameterItems d.nextId (d.items.size + 1) 0 spec.parameters).length := by
    rw [size_toSurface]
    exact shapes_newParameters d spec.parameters
  have hlist : (canonicalItem (d.methodItem o.id info isConstructor spec)).payload.slot .parameters =
      (List.range (parameterItems d.nextId (d.items.size + 1) 0 spec.parameters).length).map
        fun k => ⟨d.toSurface.size + 1 + k⟩ := by
    rw [length_parameterItems, size_toSurface]
    cases isConstructor <;> rfl
  have hmember := newMember_of_withMember (toSurface_wellFormed h)
    (toSurface_wellFormed hgrows.wellFormed) hpartial ho hitems (core_linkClass _ _) rfl hps hlist
  refine ⟨hgrows, hmember.keeps, ?_, fun k path hk => ?_, fun slot i _ hi => ?_⟩
  · rw [pushMethod_items, size_withMember, length_parameterItems, MethodSpec.paths, List.length_cons,
      List.length_mapIdx]
  · rw [← size_toSurface]
    cases k with
    | zero =>
      cases hk
      refine ⟨_, hmember.declares, rfl, ?_⟩
      rw [hmember.path, memberTrait_methodItem]
    | succ k =>
      have htraits := congrArg (·[k]?)
        (traits_parameterItems d.nextId (d.items.size + 1) spec.parameters)
      simp only [List.getElem?_map, List.getElem?_mapIdx] at htraits
      rw [MethodSpec.paths, List.getElem?_cons_succ, List.getElem?_mapIdx] at hk
      obtain ⟨p, hp, rfl⟩ := Option.map_eq_some_iff.mp hk
      rw [hp] at htraits
      obtain ⟨item, hitem, htrait⟩ := Option.map_eq_some_iff.mp htraits
      obtain ⟨hx, hpath⟩ := hmember.parameter hitem
      refine ⟨_, hx, rfl, ?_⟩
      rw [hpath, memberTrait_methodItem, htrait]
  · rw [slotAt_pushMethod hc info isConstructor spec slot (Nat.lt_trans hi hlt),
      if_neg fun hh => Nat.ne_of_lt hi hh.2, List.append_nil]

theorem pushField_gains (h : d.WellFormed) {owner package : ItemId} {around : List Trait}
    (hc : ClassAt d.shapes owner package) (hat : d.PathAt owner around) (spec : FieldSpec) :
    Gains d (d.pushField owner spec) owner.index [spec.trait :: around] := by
  have hgrows := pushField_grows h hc spec
  have hlt := hat.lt
  obtain ⟨o, ho, rfl, rfl⟩ := hat
  have hitems := congrArg (Array.map canonicalItem) (pushField_items d o.id spec)
  rw [map_withMember (canonicalItem_linkClass _ _), List.map_nil] at hitems
  have hmember := newMember_of_withMember (toSurface_wellFormed h)
    (toSurface_wellFormed hgrows.wellFormed) rfl ho hitems (core_linkClass _ _) rfl rfl rfl
  refine ⟨hgrows, hmember.keeps, ?_, fun k path hk => ?_, fun slot i _ hi => ?_⟩
  · rw [pushField_items, size_withMember]
    rfl
  · rw [← size_toSurface]
    cases k with
    | zero =>
      cases hk
      exact ⟨_, hmember.declares, rfl, hmember.path⟩
    | succ k => cases hk
  · rw [slotAt_pushField hc spec slot (Nat.lt_trans hi hlt), if_neg fun hh => Nat.ne_of_lt hi hh.2,
      List.append_nil]

/-! ### Packages and classes -/

theorem pushPackage_gains (h : d.WellFormed) {spec : PackageSpec}
    (hname : d.packages[spec.name]? = none) (bound : Nat) :
    Gains d (d.pushPackage spec.name spec.flags spec.isStub) bound [[spec.trait]] := by
  have hgrows := pushPackage_grows h spec.flags spec.isStub hname
  let item := d.nextItem none (.ofVisibility .publicAccess) spec.flags (!spec.isStub)
    (.package { name := spec.name })
  have hitems : (d.pushPackage spec.name spec.flags spec.isStub).toSurface.items =
      d.toSurface.items.push (canonicalItem item) := Array.map_push
  have hslot : (canonicalItem item).payload.slot .parameters = [] := rfl
  obtain ⟨hkeeps, x, hx, hid, hitem, htrait⟩ := keeps_push (toSurface_wellFormed h)
    (toSurface_wellFormed hgrows.wellFormed) rfl hslot
    (fun i hi => by rw [hitems, Array.getElem?_push_lt hi, ← Array.getElem?_eq_getElem hi])
    (by rw [hitems]; exact Array.getElem?_push_size)
  have hpath : x.path = [spec.trait] := by
    have hnone : x.parent? = none := by
      rw [Decl.parent?, hitem]
      rfl
    rw [(hx.inPlace hkeeps.right).path_eq, hnone, htrait]
    rfl
  refine ⟨hgrows, hkeeps, Array.size_push _, fun k path hk => ?_, fun slot i _ _ => ?_⟩
  · rw [← size_toSurface]
    cases k with
    | zero =>
      cases hk
      exact ⟨x, hx, hid, hpath⟩
    | succ k => cases hk
  · exact slotAt_push_of_empty (fun slot => by cases slot <;> rfl) d.items slot i

theorem items_pushClass (d : Draft) (package : ItemId) (outer : Option ItemId) (spec : ClassSpec) :
    (d.pushClass package outer spec).toSurface.items =
      (withClass d.items (d.classItem package outer spec) package (linkPackage d.nextId) outer
        (linkClass .nested d.nextId)).map canonicalItem :=
  congrArg (Array.map canonicalItem) (pushClass_items d package outer spec)

/-- A new class changes nothing in the old items but lists of classes. -/
theorem core_pushClass (package : ItemId) (outer : Option ItemId) (spec : ClassSpec) {i : Nat}
    (hi : i < d.toSurface.size) : (d.pushClass package outer spec).toSurface.items[i]?.map Item.core =
      d.toSurface.items[i]?.map Item.core := by
  rw [size_toSurface] at hi
  have hcore : (withClass d.items (d.classItem package outer spec) package (linkPackage d.nextId)
      outer (linkClass .nested d.nextId))[i]?.map (fun item => (canonicalItem item).core) =
        d.items[i]?.map fun item => (canonicalItem item).core :=
    getElem?_withClass_old (fun item => by rw [canonicalItem_linkPackage, core_linkPackage])
      (fun item => by rw [canonicalItem_linkClass, core_linkClass]) hi
  rw [items_pushClass, toSurface, Array.getElem?_map, Array.getElem?_map, Option.map_map,
    Option.map_map]
  exact hcore

/-- A new class is the last item. -/
theorem getElem?_pushClass {package : ItemId} {outer : Option ItemId} (spec : ClassSpec)
    (hpackage : PackageAt d.shapes package)
    (houter : ∀ o, outer = some o → ClassAt d.shapes o package) :
    (d.pushClass package outer spec).toSurface.items[d.toSurface.size]? =
      some (canonicalItem (d.classItem package outer spec)) := by
  have hlt : ∀ {id : ItemId} {role : Role}, roleAt d.shapes id = some role →
      id.index < d.items.size := by
    intro id role hr
    rw [← shapes_length]
    exact roleAt_lt hr
  have hltp : package.index < d.items.size := by
    obtain ⟨_, hr⟩ := hpackage
    exact hlt hr
  have hlto : ∀ o, outer = some o → o.index < d.items.size := by
    intro o ho
    obtain ⟨_, _, hr⟩ := houter o ho
    exact hlt hr
  rw [items_pushClass, size_toSurface, Array.getElem?_map, getElem?_withClass_new hltp hlto]
  rfl

/-- A new class lists no members, and is listed as none. -/
theorem slotAt_pushClass {package : ItemId} {outer : Option ItemId}
    (hpackage : PackageAt d.shapes package)
    (houter : ∀ o, outer = some o → ClassAt d.shapes o package) (spec : ClassSpec) {slot : Slot}
    (hslot : slot.ofMembers = true) (i : Nat) :
    slotAt (d.pushClass package outer spec).items slot i = slotAt d.items slot i := by
  rw [pushClass_items, slotAt_withClass hpackage houter (slot_emptyClass package outer spec)
    (links_linkPackage d.nextId) (links_linkClass .nested d.nextId Slot.noConfusion Slot.noConfusion),
    if_neg, if_neg, List.append_nil, List.append_nil]
  all_goals
    rintro ⟨rfl, _⟩
    cases hslot

theorem pushClass_gains (h : d.WellFormed) {package : ItemId} {outer : Option ItemId}
    {spec : ClassSpec} {around : List Trait} (hpackage : PackageAt d.shapes package)
    (houter : ∀ o, outer = some o → ClassAt d.shapes o package)
    (hat : d.PathAt (outer.getD package) around)
    (hname : d.classes.contains (Text.trimmed spec.name) = false) (bound : Nat) :
    Gains d (d.pushClass package outer spec) bound [spec.trait :: around] := by
  have hgrows := (pushClass_grows h hpackage houter hname).1
  obtain ⟨p, hp, hid, rfl⟩ := hat
  have hpartial : (d.pushClass package outer spec).isPartial = d.isPartial := by
    cases outer <;> rfl
  have hslot : (canonicalItem (d.classItem package outer spec)).payload.slot .parameters = [] := rfl
  obtain ⟨hkeeps, x, hx, hidx, hitem, htrait⟩ := keeps_push (toSurface_wellFormed h)
    (toSurface_wellFormed hgrows.wellFormed) hpartial hslot
    (fun i hi => core_pushClass package outer spec hi) (getElem?_pushClass spec hpackage houter)
  have hpath : x.path = spec.trait :: p.path := by
    have hparent : x.item.parent = some p.id := by
      rw [hitem, hid]
      rfl
    rw [hkeeps.path_of_parent hp hx hparent, htrait]
    rfl
  refine ⟨hgrows, hkeeps, ?_, fun k path hk => ?_, fun slot i hslot _ => ?_⟩
  · rw [pushClass_items, size_withClass]
    rfl
  · rw [← size_toSurface]
    cases k with
    | zero =>
      cases hk
      exact ⟨x, hx, hidx, hpath⟩
    | succ k => cases hk
  · exact slotAt_pushClass hpackage houter spec hslot i

/-! ## Runs of additions -/

/-- The simple name that constructors of a class take is the one of its spec. -/
theorem simpleName_of_pathAt (h : d.WellFormed) {id : ItemId} {spec : ClassSpec} {around : List Trait}
    (hat : d.PathAt id (spec.trait :: around)) {info : ClassInfo} (hinfo : d.classInfo id = .ok info) :
    info.simpleName = spec.simpleName := by
  obtain ⟨x, hx, rfl, hpath⟩ := hat
  have htrait := congrArg Trait.item ((hx.inPlace (toSurface_wellFormed h)).trait_of_path hpath)
  have hitem := hx.getElem?
  rw [toSurface, Array.getElem?_map] at hitem
  obtain ⟨item, hi, hcanonical⟩ := Option.map_eq_some_iff.mp hitem
  have hpay : item.payload = .ofClass info := by
    unfold classInfo at hinfo
    simp only [hi] at hinfo
    split at hinfo
    · next hp =>
      cases hinfo
      exact hp
    · cases hinfo
  have hpayload := congrArg Item.payload htrait
  simp only [Decl.trait, ← hcanonical, Item.bare, canonicalItem, hpay, Payload.bare, ClassSpec.trait,
    Payload.ofClass.injEq] at hpayload
  exact (congrArg ClassInfo.simpleName hpayload :)

def extended (listing : Slot → List (List Trait)) (slot : Slot) (paths : List (List Trait)) :
    Slot → List (List Trait) :=
  fun other => listing other ++ if other = slot then paths else []

theorem extended_nil (listing : Slot → List (List Trait)) (slot : Slot) :
    extended listing slot [] = listing := by
  funext other
  unfold extended
  split <;> exact List.append_nil _

theorem extended_extended (listing : Slot → List (List Trait)) (slot : Slot)
    (paths more : List (List Trait)) :
    extended (extended listing slot paths) slot more = extended listing slot (paths ++ more) := by
  funext other
  unfold extended
  split
  · exact List.append_assoc _ _ _
  · exact List.append_nil _

variable {α β : Type} {package id : ItemId} {path : List Trait} {listing : Slot → List (List Trait)}
  {bound : Nat} {new : List (List Trait)}

/-- The lists of members of the item name items of these paths, in this order. -/
def Lists (d : Draft) (id : ItemId) (listing : Slot → List (List Trait)) : Prop :=
  ∀ slot : Slot, slot.ofMembers = true →
    List.Forall₂ d.PathAt (slotAt d.items slot id.index) (listing slot)

/-- Additions that change other lists change nothing in what is listed. -/
theorem Lists.gains (h : d.Lists id listing) (hg : Gains d d' bound new) (hlt : id.index < bound) :
    d'.Lists id listing := by
  intro slot hslot
  rw [hg.lists slot id.index hslot hlt]
  exact (h slot hslot).imp fun _ _ hat => hg.pathAt hat

/-- A member is listed last. -/
theorem Lists.member {slot : Slot} (h : d.Lists id listing) (hg : Gains d d' bound (path :: new))
    (hlists : ∀ other, slotAt d'.items other id.index = slotAt d.items other id.index ++
      if other = slot ∧ id.index = id.index then [d.nextId] else []) :
    d'.Lists id (extended listing slot [path]) := by
  intro other hother
  have hold := (h other hother).imp fun _ _ hat => hg.pathAt hat
  rw [hlists]
  unfold extended
  by_cases heq : other = slot
  · rw [if_pos ⟨heq, rfl⟩, if_pos heq]
    exact List.rel_append hold (.cons (hg.paths 0 path rfl) .nil)
  · rw [if_neg fun hh => heq hh.1, if_neg heq]
    exact List.rel_append hold .nil

/-- A class that members can be added to, with what it lists so far. -/
structure ClassReady (package id : ItemId) (path : List Trait) (listing : Slot → List (List Trait))
    (d : Draft) : Prop where
  classAt : ClassAt d.shapes id package
  pathAt : d.PathAt id path
  lists : d.Lists id listing

/-- A run over a list of specs gains what the single specs gain, one after the other. -/
theorem each_gains {add : α → Addition ItemId} (Ready : List β → Draft → Prop) (mark : α → β)
    (new : α → List (List Trait))
    (hadd : ∀ {d d' : Draft} {done : List β} {x : α} {id : ItemId}, d.WellFormed → Ready done d →
      d.add (add x) = (.ok id, d') → Gains d d' bound (new x) ∧ Ready (done ++ [mark x]) d')
    (h : d.WellFormed) {done : List β} (hd : Ready done d) {specs : List α}
    (hok : d.add (Addition.each add specs) = (.ok ⟨⟩, d')) :
    Gains d d' bound (specs.flatMap new) ∧ Ready (done ++ specs.map mark) d' := by
  induction specs generalizing d done with
  | nil =>
    cases hok
    exact ⟨.refl h, by rwa [List.map_nil, List.append_nil]⟩
  | cons spec rest ih =>
    rw [Addition.each] at hok
    obtain ⟨id, d₁, hspec, hrest⟩ := add_bind_eq_ok hok
    obtain ⟨hg, hready⟩ := hadd h hd hspec
    obtain ⟨hg', hready'⟩ := ih hg.grows.wellFormed hready hrest
    rw [List.append_assoc] at hready'
    exact ⟨hg.trans hg', hready'⟩

/-- A run of members of one sort. -/
theorem members_gains {add : α → Addition ItemId} {slot : Slot} (mark : α → List Trait)
    (new : α → List (List Trait))
    (hadd : ∀ {d d' : Draft} {listing : Slot → List (List Trait)} {x : α} {m : ItemId}, d.WellFormed →
      ClassReady package id path listing d → d.add (add x) = (.ok m, d') →
        Gains d d' id.index (new x) ∧ ClassReady package id path (extended listing slot [mark x]) d')
    (h : d.WellFormed) (hd : ClassReady package id path listing d) {specs : List α}
    (hok : d.add (Addition.each add specs) = (.ok ⟨⟩, d')) :
    Gains d d' id.index (specs.flatMap new) ∧
      ClassReady package id path (extended listing slot (specs.map mark)) d' := by
  have hstep : ∀ {d d' : Draft} {done : List (List Trait)} {x : α} {m : ItemId}, d.WellFormed →
      ClassReady package id path (extended listing slot done) d → d.add (add x) = (.ok m, d') →
        Gains d d' id.index (new x) ∧
          ClassReady package id path (extended listing slot (done ++ [mark x])) d' := by
    intro d d' done x m h hd hok
    rw [← extended_extended]
    exact hadd h hd hok
  have hstart : ClassReady package id path (extended listing slot []) d := by rwa [extended_nil]
  exact each_gains (fun done => ClassReady package id path (extended listing slot done)) mark new hstep h
    hstart hok

theorem constructor_gains {owner : ClassSpec} {around : List Trait} {spec : MethodSpec} {x : ItemId}
    (h : d.WellFormed) (hd : ClassReady package id (owner.trait :: around) listing d)
    (hok : d.add (Addition.constructor id spec) = (.ok x, d')) :
    Gains d d' id.index (spec.paths true owner.simpleName (owner.trait :: around)) ∧
      ClassReady package id (owner.trait :: around) (extended listing .constructors
        [spec.trait true owner.simpleName :: owner.trait :: around]) d' := by
  obtain ⟨info, hinfo, rfl⟩ := add_constructor_eq_ok hok
  rw [← simpleName_of_pathAt h hd.pathAt hinfo]
  have hg := pushMethod_gains h hd.classAt hd.pathAt info true spec
  exact ⟨hg, hg.grows.classAt hd.classAt, hg.pathAt hd.pathAt, hd.lists.member hg
    fun other => slotAt_pushMethod hd.classAt info true spec other hd.pathAt.lt⟩

theorem method_gains {owner : ClassSpec} {around : List Trait} {spec : MethodSpec} {x : ItemId}
    (h : d.WellFormed) (hd : ClassReady package id (owner.trait :: around) listing d)
    (hok : d.add (Addition.method id spec) = (.ok x, d')) :
    Gains d d' id.index (spec.paths false owner.simpleName (owner.trait :: around)) ∧
      ClassReady package id (owner.trait :: around) (extended listing .methods
        [spec.trait false owner.simpleName :: owner.trait :: around]) d' := by
  obtain ⟨info, hinfo, rfl⟩ := add_method_eq_ok hok
  rw [← simpleName_of_pathAt h hd.pathAt hinfo]
  have hg := pushMethod_gains h hd.classAt hd.pathAt info false spec
  exact ⟨hg, hg.grows.classAt hd.classAt, hg.pathAt hd.pathAt, hd.lists.member hg
    fun other => slotAt_pushMethod hd.classAt info false spec other hd.pathAt.lt⟩

theorem field_gains {spec : FieldSpec} {x : ItemId} (h : d.WellFormed)
    (hd : ClassReady package id path listing d)
    (hok : d.add (Addition.field id spec) = (.ok x, d')) : Gains d d' id.index [spec.trait :: path] ∧
      ClassReady package id path (extended listing .fields [spec.trait :: path]) d' := by
  obtain rfl := add_field_eq_ok hok
  have hg := pushField_gains h hd.classAt hd.pathAt spec
  exact ⟨hg, hg.grows.classAt hd.classAt, hg.pathAt hd.pathAt, hd.lists.member hg
    fun other => slotAt_pushField hd.classAt spec other hd.pathAt.lt⟩

/-- A new class is the next item, and lists no members. -/
theorem classHead_gains {outer : Option ItemId} {spec : ClassSpec} {around : List Trait}
    (h : d.WellFormed) (hpackage : PackageAt d.shapes package)
    (houter : ∀ o, outer = some o → ClassAt d.shapes o package)
    (hat : d.PathAt (outer.getD package) around)
    (hok : d.add (Addition.classHead package outer spec) = (.ok id, d')) :
    id = d.nextId ∧ Gains d d' d.items.size [spec.trait :: around] ∧
      ClassReady package id (spec.trait :: around) (fun _ => []) d' := by
  obtain ⟨hname, rfl, rfl⟩ := add_classHead_eq_ok hok
  have hg := pushClass_gains h hpackage houter hat hname d.items.size
  refine ⟨rfl, hg, (pushClass_grows h hpackage houter hname).2, hg.paths 0 _ rfl, fun slot hslot => ?_⟩
  have hempty : slotAt d.items slot d.nextId.index = [] := slotAt_size d.items slot (Nat.le_refl _)
  rw [slotAt_pushClass hpackage houter spec hslot, hempty]
  exact .nil

/-- The class is there inside the path `around`, and lists what its spec declares. -/
def Installs (d : Draft) (around : List Trait) (spec : ClassSpec) : Prop :=
  ∃ id, d.PathAt id (spec.trait :: around) ∧ d.Lists id (spec.listing around)

theorem Installs.gains {around : List Trait} {spec : ClassSpec} (h : d.Installs around spec)
    (hg : Gains d d' d.items.size new) : d'.Installs around spec := by
  obtain ⟨id, hat, hlists⟩ := h
  exact ⟨id, hg.pathAt hat, hlists.gains hg hat.lt⟩

theorem extended_listing (around : List Trait) (spec : ClassSpec) :
    extended (extended (extended (fun _ => []) .constructors
      (spec.constructors.map fun m => m.trait true spec.simpleName :: spec.trait :: around)) .methods
      (spec.methods.map fun m => m.trait false spec.simpleName :: spec.trait :: around)) .fields
      (spec.fields.map fun f => f.trait :: spec.trait :: around) = spec.listing around := by
  funext slot
  cases slot <;> simp [extended, ClassSpec.listing]

mutual
/-- A class that is added gains its paths in order, and all classes in it are complete then. -/
theorem classIn_gains {d d' : Draft} (h : d.WellFormed) {package : ItemId} {outer : Option ItemId}
    (hpackage : PackageAt d.shapes package)
    (houter : ∀ o, outer = some o → ClassAt d.shapes o package) {around : List Trait}
    (hat : d.PathAt (outer.getD package) around) : (spec : ClassSpec) → {id : ItemId} →
    d.add (Addition.classIn package outer spec) = (.ok id, d') →
    Gains d d' d.items.size (spec.paths around) ∧
      ∀ around' c, spec.Contains around around' c → d'.Installs around' c
  | ⟨name, kind, modifiers, flags, isStub, superclass, interfaces, typeParameters, constructors,
      methods, fields, nested⟩, id, hok => by
    let spec : ClassSpec := ⟨name, kind, modifiers, flags, isStub, superclass, interfaces,
      typeParameters, constructors, methods, fields, nested⟩
    rw [Addition.classIn] at hok
    obtain ⟨c, d₁, hhead, hok⟩ := add_bind_eq_ok hok
    obtain ⟨rfl, h₁, hready⟩ := classHead_gains h hpackage houter hat hhead
    obtain ⟨_, d₂, hconstructors, hok⟩ := add_bind_eq_ok hok
    obtain ⟨h₂, hready⟩ := members_gains (fun m => m.trait true spec.simpleName :: spec.trait :: around)
      (MethodSpec.paths true spec.simpleName (spec.trait :: around)) constructor_gains
      h₁.grows.wellFormed hready hconstructors
    obtain ⟨_, d₃, hmethods, hok⟩ := add_bind_eq_ok hok
    obtain ⟨h₃, hready⟩ := members_gains (fun m => m.trait false spec.simpleName :: spec.trait :: around)
      (MethodSpec.paths false spec.simpleName (spec.trait :: around)) method_gains
      h₂.grows.wellFormed hready hmethods
    obtain ⟨_, d₄, hfields, hok⟩ := add_bind_eq_ok hok
    obtain ⟨h₄, hready⟩ := members_gains (fun f => f.trait :: spec.trait :: around)
      (fun f => [f.trait :: spec.trait :: around]) field_gains h₃.grows.wellFormed hready hfields
    obtain ⟨_, d₅, hnested, hok⟩ := add_bind_eq_ok hok
    cases hok
    have hg := h₁.trans (h₂.trans (h₃.trans h₄))
    obtain ⟨h₅, hinner⟩ := classesIn_gains h₄.grows.wellFormed (hg.grows.packageAt hpackage)
      hready.classAt hready.pathAt nested hnested
    have hself : d₄.Installs around spec :=
      ⟨d.nextId, hready.pathAt, extended_listing around spec ▸ hready.lists⟩
    constructor
    · have hall := hg.trans (h₅.weaken hg.size_le)
      rw [ClassSpec.paths]
      simpa only [List.map_eq_flatMap, List.append_assoc, List.cons_append, List.nil_append] using hall
    · intro around' c hc
      cases hc with
      | self => exact hself.gains h₅
      | nested hn hc => exact hinner _ hn around' c hc

theorem classesIn_gains {d d' : Draft} (h : d.WellFormed) {package outer : ItemId}
    (hpackage : PackageAt d.shapes package) (houter : ClassAt d.shapes outer package)
    {around : List Trait} (hat : d.PathAt outer around) : (specs : List ClassSpec) →
    d.add (Addition.classesIn package outer specs) = (.ok ⟨⟩, d') →
    Gains d d' d.items.size (ClassSpec.pathsIn around specs) ∧
      ∀ n ∈ specs, ∀ around' c, n.Contains around around' c → d'.Installs around' c
  | [], hok => by
    rw [Addition.classesIn] at hok
    cases hok
    rw [ClassSpec.pathsIn]
    exact ⟨.refl h, nofun⟩
  | spec :: rest, hok => by
    rw [Addition.classesIn] at hok
    obtain ⟨_, d₁, hspec, hrest⟩ := add_bind_eq_ok hok
    obtain ⟨hg, hinner⟩ := classIn_gains h hpackage houter.of_some hat spec hspec
    obtain ⟨hg', hinner'⟩ := classesIn_gains hg.grows.wellFormed (hg.grows.packageAt hpackage)
      (hg.grows.classAt houter) (hg.pathAt hat) rest hrest
    rw [ClassSpec.pathsIn]
    refine ⟨hg.trans (hg'.weaken hg.size_le), fun n hn around' c hc => ?_⟩
    rcases List.mem_cons.mp hn with rfl | hn
    · exact (hinner around' c hc).gains hg'
    · exact hinner' n hn around' c hc
end

/-! ## Packages -/

/-- A package that classes are added to, with those that are complete. -/
structure PackageReady (package : ItemId) (around : List Trait) (bound : Nat) (done : List ClassSpec)
    (d : Draft) : Prop where
  pathAt : d.PathAt package around
  bound_le : bound ≤ d.items.size
  installs : ∀ spec ∈ done, ∀ around' c, spec.Contains around around' c → d.Installs around' c

theorem topLevelClass_gains {around : List Trait} {done : List ClassSpec} {spec : ClassSpec}
    (h : d.WellFormed) (hd : PackageReady package around bound done d)
    (hok : d.add (Addition.topLevelClass package spec) = (.ok id, d')) :
    Gains d d' bound (spec.paths around) ∧ PackageReady package around bound (done ++ [spec]) d' := by
  obtain ⟨⟨info, hinfo⟩, hok⟩ := add_topLevelClass_eq_ok hok
  have hno : ∀ o, (none : Option ItemId) = some o → ClassAt d.shapes o package := nofun
  obtain ⟨hg, hinner⟩ := classIn_gains h (packageInfo_ok hinfo) hno hd.pathAt spec hok
  refine ⟨hg.weaken hd.bound_le, hg.pathAt hd.pathAt, Nat.le_trans hd.bound_le hg.size_le, ?_⟩
  intro other hother around' c hc
  rcases List.mem_append.mp hother with hother | hother
  · exact (hd.installs other hother around' c hc).gains hg
  · rw [List.mem_singleton.mp hother] at hc
    exact hinner around' c hc

/-- The table holds the names of the packages, which are the items whose paths have length one. -/
theorem packages_iff (h : d.WellFormed) {name : String} : d.packages[name]? = some id ↔
    ∃ t : Trait, d.PathAt id [t] ∧ t.item.payload.name = name := by
  have hs := toSurface_wellFormed h
  change d.toSurface.packages[name]? = some id ↔ _
  rw [Surface.packages_iff hs]
  constructor
  · rintro ⟨x, hx, hpackage, rfl⟩
    obtain ⟨_, rfl, _⟩ := decl?_eq_some hx
    refine ⟨x.trait, ⟨x, hx, rfl, ?_⟩, x.name_trait⟩
    rw [Decl.path, lineage_of_package hs hx hpackage]
    rfl
  · rintro ⟨t, ⟨x, hx, rfl, hpath⟩, rfl⟩
    rw [(hx.inPlace hs).path_eq] at hpath
    obtain ⟨rfl, htail⟩ := List.cons.inj hpath
    rcases hx.parent_cases hs with ⟨hpackage, _⟩ | ⟨p, hp, hparent, _⟩
    · exact ⟨x, hx, hpackage, x.name_trait.symm⟩
    · rw [hx.parent?_eq hp hparent, Option.map_some, (hp.inPlace hs).path_eq] at htail
      cases htail

/-- Items with longer paths are no packages. -/
theorem Gains.packages (hg : Gains d d' bound new) (h : d.WellFormed)
    (hnew : ∀ path ∈ new, 1 < path.length) (name : String) : d'.packages[name]? = d.packages[name]? := by
  refine Option.ext fun id => ?_
  rw [packages_iff hg.grows.wellFormed, packages_iff h]
  refine exists_congr fun t => and_congr_left fun _ => ?_
  rw [hg.pathAt_iff]
  refine or_iff_left ?_
  rintro ⟨k, _, hk⟩
  exact Nat.lt_irrefl _ (hnew _ (List.mem_of_getElem? hk))

/-- The packages of the draft are the first ones of their names. -/
def HasPackages (d : Draft) (earlier : List PackageSpec) : Prop :=
  ∀ name, Option.Rel (fun id first => d.PathAt id [first.trait]) d.packages[name]?
    (earlier.find? (·.name == name))

theorem HasPackages.gains {earlier : List PackageSpec} (hp : d.HasPackages earlier)
    (hg : Gains d d' bound new) (h : d.WellFormed) (hnew : ∀ path ∈ new, 1 < path.length) :
    d'.HasPackages earlier := by
  intro name
  rw [hg.packages h hnew]
  exact rel_imp (hp name) fun _ _ hat => hg.pathAt hat

theorem find?_append_spec (earlier : List PackageSpec) (spec : PackageSpec) (name : String) :
    (earlier ++ [spec]).find? (·.name == name) =
      (earlier.find? (·.name == name)).or (if spec.name = name then some spec else none) := by
  rw [List.find?_append, List.find?_singleton]
  simp only [beq_iff_eq]

/-- A package that is named again denotes the one that there is. -/
theorem HasPackages.again {earlier : List PackageSpec} {spec first : PackageSpec}
    (hp : d.HasPackages earlier) (hfirst : earlier.find? (·.name == spec.name) = some first) :
    d.HasPackages (earlier ++ [spec]) := by
  intro name
  have hsame : (earlier ++ [spec]).find? (·.name == name) = earlier.find? (·.name == name) := by
    rw [find?_append_spec]
    split
    · next heq => rw [← heq, hfirst, Option.some_or]
    · exact Option.or_none
  rw [hsame]
  exact hp name

theorem HasPackages.pushPackage {earlier : List PackageSpec} {spec : PackageSpec}
    (hp : d.HasPackages earlier) (hfirst : earlier.find? (·.name == spec.name) = none)
    (hg : Gains d (d.pushPackage spec.name spec.flags spec.isStub) bound [[spec.trait]]) :
    (d.pushPackage spec.name spec.flags spec.isStub).HasPackages (earlier ++ [spec]) := by
  intro name
  change Option.Rel _ (d.packages.insert spec.name d.nextId)[name]? _
  rw [find?_append_spec, Std.TreeMap.getElem?_insert]
  by_cases heq : spec.name = name
  · rw [if_pos (Std.LawfulEqCmp.compare_eq_iff_eq.mpr heq), if_pos heq, ← heq, hfirst,
      Option.none_or]
    exact .some (hg.paths 0 _ rfl)
  · rw [if_neg fun h => heq (Std.LawfulEqCmp.compare_eq_iff_eq.mp h), if_neg heq, Option.or_none]
    exact rel_imp (hp name) fun _ _ hat => hg.pathAt hat

/-- The package of a spec is the first one of its name, which is new if there has been none. -/
theorem package_gains {earlier : List PackageSpec} {spec : PackageSpec} (h : d.WellFormed)
    (hp : d.HasPackages earlier) (bound : Nat)
    (hok : d.add (Addition.package spec.name spec.flags spec.isStub) = (.ok id, d')) :
    Gains d d' bound (if earlier.any (·.name == spec.name) then [] else [[spec.trait]]) ∧
      d'.PathAt id [(spec.bearer earlier).trait] ∧ d'.HasPackages (earlier ++ [spec]) := by
  have hself := hp spec.name
  unfold PackageSpec.bearer
  rw [← List.isSome_find?]
  rcases add_package_eq_ok hok with ⟨hname, rfl⟩ | ⟨hname, rfl, rfl⟩
  · rw [hname] at hself
    cases hfirst : earlier.find? (·.name == spec.name) with
    | none =>
      rw [hfirst] at hself
      cases hself
    | some first =>
      rw [hfirst] at hself
      cases hself with | some hat => ?_
      exact ⟨.refl h, hat, hp.again hfirst⟩
  · rw [hname] at hself
    cases hfirst : earlier.find? (·.name == spec.name) with
    | some first =>
      rw [hfirst] at hself
      cases hself
    | none =>
      have hg := pushPackage_gains h hname bound
      exact ⟨hg, hg.paths 0 _ rfl, hp.pushPackage hfirst hg⟩

/-- A package that is added gains its paths in order, and its classes are complete then. -/
theorem packageSpec_gains {earlier : List PackageSpec} {spec : PackageSpec} (h : d.WellFormed)
    (hp : d.HasPackages earlier) (hok : d.add (Addition.packageSpec spec) = (.ok id, d')) :
    Gains d d' d.items.size (spec.paths earlier) ∧ d'.HasPackages (earlier ++ [spec]) ∧
      ∀ c ∈ spec.classes, ∀ around' c',
        c.Contains [(spec.bearer earlier).trait] around' c' → d'.Installs around' c' := by
  rw [Addition.packageSpec] at hok
  obtain ⟨p, d₁, hpackage, hok⟩ := add_bind_eq_ok hok
  obtain ⟨h₁, hat, hp₁⟩ := package_gains h hp d.items.size hpackage
  obtain ⟨_, d₂, hclasses, hok⟩ := add_bind_eq_ok hok
  cases hok
  have hstart : PackageReady id [(spec.bearer earlier).trait] d.items.size [] d₁ :=
    ⟨hat, h₁.size_le, nofun⟩
  obtain ⟨h₂, hready⟩ := each_gains (PackageReady id [(spec.bearer earlier).trait] d.items.size) (fun c => c)
    (ClassSpec.paths [(spec.bearer earlier).trait]) topLevelClass_gains h₁.grows.wellFormed hstart hclasses
  rw [List.nil_append, List.map_id'] at hready
  rw [← ClassSpec.pathsIn_eq] at h₂
  refine ⟨h₁.trans h₂, hp₁.gains h₂ h₁.grows.wellFormed fun path hm => ?_, hready.installs⟩
  obtain ⟨c, _, hc⟩ := (ClassSpec.mem_pathsIn_iff _ _ _).mp hm
  exact hc.length_lt

/-- The packages of a document stand one behind the other, and their classes are complete in the end. -/
theorem packages_gains {earlier specs : List PackageSpec} (h : d.WellFormed)
    (hp : d.HasPackages earlier)
    (hok : d.add (Addition.each Addition.packageSpec specs) = (.ok ⟨⟩, d')) :
    Gains d d' d.items.size (PackageSpec.pathsAfter earlier specs) ∧
      ∀ before p after, specs = before ++ p :: after → ∀ c ∈ p.classes, ∀ around' c',
        c.Contains [(p.bearer (earlier ++ before)).trait] around' c' → d'.Installs around' c' := by
  induction specs generalizing d earlier with
  | nil =>
    cases hok
    refine ⟨.refl h, fun before p after heq => ?_⟩
    cases before <;> cases heq
  | cons spec rest ih =>
    rw [Addition.each] at hok
    obtain ⟨id, d₁, hspec, hrest⟩ := add_bind_eq_ok hok
    obtain ⟨hg, hp₁, hinner⟩ := packageSpec_gains h hp hspec
    obtain ⟨hg', hinner'⟩ := ih hg.grows.wellFormed hp₁ hrest
    refine ⟨hg.trans (hg'.weaken hg.size_le), fun before p after heq c hc around' c' hcc => ?_⟩
    cases before with
    | nil =>
      cases heq
      rw [List.append_nil] at hcc
      exact (hinner c hc around' c' hcc).gains hg'
    | cons first before =>
      cases heq
      rw [List.append_cons] at hcc
      exact hinner' before p after rfl c hc around' c' hcc

variable {snapshot : Snapshot} {readFrom : String}

/-- The draft of a document has the items of the document in document order, and its classes are
complete. -/
theorem document_gains
    (hok : (snapshot.emptyDraft readFrom).add (Addition.each Addition.packageSpec snapshot.packages) =
      (.ok ⟨⟩, d)) : Gains (snapshot.emptyDraft readFrom) d 0 snapshot.paths ∧
        ∀ around c, snapshot.Contains around c → d.Installs around c := by
  have hempty : (snapshot.emptyDraft readFrom).WellFormed := Arena.WellFormed.empty
  have hno : (snapshot.emptyDraft readFrom).HasPackages [] := by
    intro name
    have hnone : (snapshot.emptyDraft readFrom).packages[name]? = none := Std.TreeMap.getElem?_emptyc
    rw [hnone]
    exact .none
  obtain ⟨hg, hinstalls⟩ := packages_gains hempty hno hok
  refine ⟨hg, ?_⟩
  rintro around c ⟨before, p, after, heq, outermost, hc, hcc⟩
  exact hinstalls before p after heq outermost hc around c hcc

/-- What a document declares has the format that the document says, and the paths that it describes. -/
theorem toSurface_describes (hnames : (snapshot.packages.map (·.name)).Nodup)
    (hok : (snapshot.emptyDraft readFrom).add (Addition.each Addition.packageSpec snapshot.packages) =
      (.ok ⟨⟩, d)) : d.isPartial = snapshot.isPartial ∧
        ∀ path, d.toSurface.HasPath path ↔ snapshot.Describes path := by
  have hg := (document_gains hok).1
  refine ⟨hg.keeps.isPartial, fun path => ?_⟩
  rw [← Snapshot.mem_paths_iff hnames]
  constructor
  · rintro ⟨x, hx, rfl⟩
    rcases hg.pathAt_iff.mp ⟨x, hx, rfl, rfl⟩ with hold | ⟨k, _, hk⟩
    · cases hold.lt
    · exact List.mem_of_getElem? hk
  · intro hm
    obtain ⟨k, hk⟩ := List.mem_iff_getElem?.mp hm
    obtain ⟨x, hx, _, hpath⟩ := hg.paths k path hk
    exact ⟨x, hx, hpath⟩

end Draft

end ApiSurface
