import ApiSurface.Proofs.Mirrors

/-! # Paths of inherited copies

A copy says of itself what the copied member says, but that it is inherited, and so do its parameters. The
paths of a surface with copies are therefore those from before and, for each copy, those that its source
and its owner decide. Copies of fields take names that their owners do not have. -/
namespace ApiSurface

open Arena Surface

def Payload.inherited : Payload → Payload
  | .method info => .method { info with isInherited := true }
  | .field info => .field { info with isInherited := true }
  | other => other

/-- Whether a class only exposes the member, and a superclass declares it. -/
def Payload.isInherited : Payload → Bool
  | .method info => info.isInherited
  | .field info => info.isInherited
  | _ => false

def Trait.inherited (t : Trait) : Trait :=
  { t with item := { t.item with payload := t.item.payload.inherited } }

/-- The paths that a copy of `source` in `owner` brings along. -/
def Decl.CopyPaths (source owner : Decl) (path : List Trait) : Prop :=
  path = source.trait.inherited :: owner.path ∨
    ∃ t ∈ source.parameters.map Decl.trait, path = t :: source.trait.inherited :: owner.path

namespace Surface

/-- The copy is one of the member `m` in the class `o`. -/
structure Plans (s : Surface) (copy : InheritedCopy) (o m : Decl) : Prop where
  owner : s.Declares o
  isClass : o.asClass?.isSome
  source : s.Declares m
  isMember : m.item.payload.role = .method ∨ m.item.payload.role = .field
  ownerId : copy.owner = o.id
  sourceId : copy.source = m.id

variable {s s' : Surface} {c d d' m o p : Decl} {copy : InheritedCopy}

/-! ## Traits of copies -/

theorem map_parameters (hd : s.Declares d) : d.parameters.map Decl.item =
    (d.item.payload.slot .parameters).filterMap fun id => s.items[id.index]? := by
  rw [Decl.parameters_eq, Decl.members, Surface.decls, hd.surface, List.map_filterMap]
  refine List.filterMap_congr fun id _ => ?_
  rw [decl?, Option.map_map]
  exact Option.map_id'

theorem trait_of_parameter (hs : s.WellFormed) (hd : s.Declares d) (hp : p ∈ d.parameters) :
    p.trait = ⟨p.item.bare, []⟩ := by
  rw [Decl.parameters_eq] at hp
  obtain ⟨info, hpay⟩ := payload_of_parameter hs hd hp
  exact trait_of_slot ((mem_members hs hd).mp hp).1 (by rw [hpay]; rfl)

theorem traits_of_parameters (hs : s.WellFormed) (hd : s.Declares d) :
    d.parameters.map Decl.trait = (d.parameters.map Decl.item).map fun item => ⟨item.bare, []⟩ := by
  rw [List.map_map]
  exact List.map_congr_left fun p hp => trait_of_parameter hs hd hp

theorem map_bare_copiedParameters (method : ItemId) (rank : Nat) (ps : List Item) :
    (copiedParameters method rank ps).map Item.bare = ps.map Item.bare := by
  induction ps generalizing rank with
  | nil => rfl
  | cons p rest ih => rw [copiedParameters, List.map_cons, List.map_cons, ih]; rfl

theorem parameterTypes_copiedParameters (method : ItemId) (rank : Nat) (ps : List Item) :
    (copiedParameters method rank ps).filterMap Item.parameterType? =
      ps.filterMap Item.parameterType? := by
  induction ps generalizing rank with
  | nil => rfl
  | cons p rest ih => rw [copiedParameters, List.filterMap_cons, List.filterMap_cons, ih]; rfl

theorem parameterTypes_eq_filterMap (hd : s.Declares d) {ps : List Item}
    (hps : d.parameters.map Decl.item = ps) :
    d.parameterTypes = ps.filterMap Item.parameterType? := by
  rw [parameterTypes_eq hd, ← hps, map_parameters hd, List.filterMap_filterMap]

/-- The paths of a copied method are those of a new member. -/
theorem memberPaths_copiedMethod (hs : s.WellFormed) (hm : s.Declares m) {info : MethodInfo}
    (hp : m.item.payload = .method info) {ps : List Item} (hps : m.parameters.map Decl.item = ps)
    (copy : InheritedCopy) (path : List Trait) :
    (copiedMethod s.size copy m.item info ps.length).MemberPaths
        (copiedParameters ⟨s.size⟩ (s.size + 1) ps) o.path path ↔ m.CopyPaths o path := by
  have htrait : (copiedMethod s.size copy m.item info ps.length).memberTrait
      (copiedParameters ⟨s.size⟩ (s.size + 1) ps) = m.trait.inherited := by
    unfold Item.memberTrait Decl.trait Trait.inherited
    rw [parameterTypes_copiedParameters, parameterTypes_eq_filterMap hm hps]
    unfold copiedMethod Item.bare
    rw [hp]
    rfl
  have hmem : ∀ t : Trait, t ∈ m.parameters.map Decl.trait ↔
      ∃ p ∈ copiedParameters ⟨s.size⟩ (s.size + 1) ps, t = ⟨p.bare, []⟩ := by
    intro t
    have hbare := map_bare_copiedParameters ⟨s.size⟩ (s.size + 1) ps
    have htraits := congrArg (List.map fun item => (⟨item, []⟩ : Trait)) hbare
    rw [List.map_map, List.map_map] at htraits
    rw [traits_of_parameters hs hm, hps]
    change t ∈ ps.map ((fun item => (⟨item, []⟩ : Trait)) ∘ Item.bare) ↔ _
    rw [← htraits, List.mem_map]
    exact exists_congr fun p => and_congr_right fun _ => eq_comm
  unfold Item.MemberPaths Decl.CopyPaths
  rw [htrait]
  refine or_congr_right ⟨?_, ?_⟩
  · rintro ⟨p, hp, rfl⟩
    exact ⟨_, (hmem _).mpr ⟨p, hp, rfl⟩, rfl⟩
  · rintro ⟨t, ht, rfl⟩
    obtain ⟨p, hp, rfl⟩ := (hmem t).mp ht
    exact ⟨p, hp, rfl⟩

theorem memberPaths_copiedField (hm : s.Declares m) {info : FieldInfo}
    (hp : m.item.payload = .field info) (copy : InheritedCopy) (path : List Trait) :
    (copiedField s.size copy m.item info).MemberPaths [] o.path path ↔ m.CopyPaths o path := by
  have hslot : m.item.payload.slot .parameters = [] := by rw [hp]; rfl
  have htrait : (copiedField s.size copy m.item info).memberTrait [] = m.trait.inherited := by
    unfold Item.memberTrait Trait.inherited
    rw [trait_of_slot hm hslot]
    unfold copiedField Item.bare
    rw [hp]
    rfl
  have hno : m.parameters = [] := by
    rw [Decl.parameters_eq, Decl.members, hslot]
    rfl
  unfold Item.MemberPaths Decl.CopyPaths
  rw [htrait, hno]
  simp

/-! ## One copy -/

/-- A copy names its member and its class. -/
theorem Plans.unique (h : s.Plans copy o m) {o' m' : Decl} (h' : s.Plans copy o' m') :
    o' = o ∧ m' = m :=
  ⟨h'.owner.eq_of_id h.owner (h'.ownerId.symm.trans h.ownerId),
    h'.source.eq_of_id h.source (h'.sourceId.symm.trans h.sourceId)⟩

theorem Plans.getElem? (h : s.Plans copy o m) : s.items[copy.source.index]? = some m.item := by
  rw [h.sourceId]
  exact h.source.getElem?

theorem Plans.classAt (h : s.Plans copy o m) :
    ∃ package, ClassAt (shapes s.items) copy.owner package := by
  obtain ⟨package, outer, hrole⟩ := role_of_asClass? h.isClass
  refine ⟨package, o.name, outer, ?_⟩
  rw [h.ownerId, h.owner.roleAt, hrole]

/-- A copy is a new member of its class, and inherited. -/
theorem newMember_addCopy (hs : s.WellFormed) (h : s.Plans copy o m) : ∃ member parameters,
    NewMember s { s with items := addCopy s.items copy } o member parameters ∧
      member.payload.isInherited = true ∧
      ∀ path, member.MemberPaths parameters o.path path ↔ m.CopyPaths o path := by
  obtain ⟨package, hpackage⟩ := h.classAt
  have hs' : ({ s with items := addCopy s.items copy } : Surface).WellFormed :=
    (addCopy_wellFormed hs hpackage).1
  have hitem := h.getElem?
  rcases h.isMember with hrole | hrole
  · obtain ⟨info, hp⟩ : ∃ info, m.item.payload = .method info := by
      cases hp : m.item.payload <;> rw [hp] at hrole <;> cases hrole
      exact ⟨_, rfl⟩
    obtain ⟨ps, hps⟩ : ∃ ps, (info.parameters.filterMap fun p => s.items[p.index]?) = ps := ⟨_, rfl⟩
    have hps' : m.parameters.map Decl.item = ps := by
      rw [map_parameters h.source, hp]
      exact hps
    have hshapes := shapes_copiedParameters_of_method hs hitem hp hps
    have hcopy := addCopy_method hitem hp hps
    rw [h.ownerId] at hcopy
    have hmember := newMember_of_withMember hs hs' rfl h.owner hcopy
      (Draft.core_linkClass .methods ⟨s.items.size⟩) (by rw [← h.ownerId]; rfl)
      hshapes (by rw [length_copiedParameters]; rfl)
    exact ⟨_, _, hmember, rfl, memberPaths_copiedMethod hs h.source hp hps' copy⟩
  · obtain ⟨info, hp⟩ : ∃ info, m.item.payload = .field info := by
      cases hp : m.item.payload <;> rw [hp] at hrole <;> cases hrole
      exact ⟨_, rfl⟩
    have hcopy := addCopy_field hitem hp
    rw [h.ownerId] at hcopy
    have hmember := newMember_of_withMember hs hs' rfl h.owner hcopy
      (Draft.core_linkClass .fields ⟨s.items.size⟩) (by rw [← h.ownerId]; rfl) rfl rfl
    exact ⟨_, _, hmember, rfl, memberPaths_copiedField h.source hp copy⟩

/-- A copy adds its paths. -/
theorem keeps_addCopy (hs : s.WellFormed) (h : s.Plans copy o m) :
    s.Keeps { s with items := addCopy s.items copy } ∧
      ∀ path, ({ s with items := addCopy s.items copy } : Surface).HasPath path ↔
        s.HasPath path ∨ m.CopyPaths o path := by
  obtain ⟨member, parameters, hmember, _, hpaths⟩ := newMember_addCopy hs h
  exact ⟨hmember.keeps, fun path => hmember.hasPath_iff.trans (or_congr_right (hpaths path))⟩

/-! ## All copies -/

/-- The parameters of an old method are the old ones. -/
theorem Keeps.traits_of_parameters (h : s.Keeps s') (hd : s.Declares d) (hd' : s'.Declares d')
    (hid : d'.id = d.id) : d'.parameters.map Decl.trait = d.parameters.map Decl.trait := by
  have hbare {item item' : Item} (hcore : item'.core = item.core) :
      some (⟨item'.bare, []⟩ : Trait) = some ⟨item.bare, []⟩ := by
    rw [Item.bare_of_core hcore]
  rw [Surface.traits_of_parameters h.left hd, Surface.traits_of_parameters h.right hd',
    map_parameters hd, map_parameters hd', Item.slot_parameters_of_core (h.core_eq hd hd' hid),
    List.map_filterMap, List.map_filterMap]
  simp only [Option.map_eq_bind]
  exact h.filterMap_parameters hd hbare

/-- What was planned for a surface is planned for one that has grown from it, and brings the same
paths. -/
theorem Plans.keeps (h : s.Plans copy o m) (hk : s.Keeps s') : ∃ o' m', s'.Plans copy o' m' ∧
    ∀ path, m'.CopyPaths o' path ↔ m.CopyPaths o path := by
  obtain ⟨o', ho', hoid, hno⟩ := hk.exists_namesake h.owner
  obtain ⟨m', hm', hmid, hnm⟩ := hk.exists_namesake h.source
  have hrole : m'.item.payload.role = .method ∨ m'.item.payload.role = .field := by
    have hpay := hnm.payload
    rcases h.isMember with hrole | hrole
    all_goals
      cases hp : m.item.payload <;> rw [hp] at hrole <;> cases hrole
      cases hp' : m'.item.payload <;> rw [hp, hp'] at hpay <;>
        first | exact .inl rfl | exact .inr rfl | cases hpay
  refine ⟨o', m', ⟨ho', hno.isSome_asClass?.trans h.isClass, hm', hrole, h.ownerId.trans hoid.symm,
    h.sourceId.trans hmid.symm⟩, fun path => ?_⟩
  unfold Decl.CopyPaths
  rw [hnm.trait, hno.path, hk.traits_of_parameters h.source hm' hmid]

/-- What is planned for a surface is planned for it with one more copy. -/
theorem exists_plans_addCopy (hs : s.WellFormed) (h : s.Plans copy o m) {copies : List InheritedCopy}
    (hcopies : ∀ copy' ∈ copies, ∃ o m, s.Plans copy' o m) : ∀ copy' ∈ copies, ∃ o m,
      ({ s with items := addCopy s.items copy } : Surface).Plans copy' o m := by
  intro copy' hcopy'
  obtain ⟨o', m', hplan'⟩ := hcopies copy' hcopy'
  obtain ⟨o'', m'', hplan'', _⟩ := hplan'.keeps (keeps_addCopy hs h).1
  exact ⟨o'', m'', hplan''⟩

/-- The paths after all copies are those from before and those of the copies. -/
theorem keeps_foldl_addCopy (hs : s.WellFormed) {copies : List InheritedCopy}
    (h : ∀ copy ∈ copies, ∃ o m, s.Plans copy o m) :
    s.Keeps { s with items := copies.foldl addCopy s.items } ∧
      ∀ path, ({ s with items := copies.foldl addCopy s.items } : Surface).HasPath path ↔
        s.HasPath path ∨ ∃ copy ∈ copies, ∃ o m, s.Plans copy o m ∧ m.CopyPaths o path := by
  induction copies generalizing s with
  | nil => exact ⟨.refl hs, fun path => by simp⟩
  | cons copy rest ih =>
    obtain ⟨o, m, hplan⟩ := h copy List.mem_cons_self
    obtain ⟨hkeeps, hpaths⟩ := keeps_addCopy hs hplan
    have hrest := exists_plans_addCopy hs hplan fun copy' hc => h copy' (List.mem_cons_of_mem _ hc)
    obtain ⟨hkeeps', hpaths'⟩ := ih hkeeps.right hrest
    refine ⟨hkeeps.trans hkeeps', fun path => ?_⟩
    -- A plan for the grown surface is one for this surface, since a copy names both ids.
    have hback : ∀ copy' ∈ rest, (∃ o m, ({ s with items := addCopy s.items copy } : Surface).Plans
        copy' o m ∧ m.CopyPaths o path) ↔ ∃ o m, s.Plans copy' o m ∧ m.CopyPaths o path := by
      intro copy' hcopy'
      obtain ⟨o', m', hplan'⟩ := h copy' (List.mem_cons_of_mem _ hcopy')
      obtain ⟨o'', m'', hplan'', hsame⟩ := hplan'.keeps hkeeps
      constructor
      · rintro ⟨o₁, m₁, hplan₁, hpath⟩
        obtain ⟨rfl, rfl⟩ := hplan''.unique hplan₁
        exact ⟨o', m', hplan', (hsame path).mp hpath⟩
      · rintro ⟨o₁, m₁, hplan₁, hpath⟩
        obtain ⟨rfl, rfl⟩ := hplan'.unique hplan₁
        exact ⟨o'', m'', hplan'', (hsame path).mpr hpath⟩
    have hfirst : (∃ o m, s.Plans copy o m ∧ m.CopyPaths o path) ↔ m.CopyPaths o path := by
      constructor
      · rintro ⟨o₁, m₁, hplan₁, hpath⟩
        obtain ⟨rfl, rfl⟩ := hplan.unique hplan₁
        exact hpath
      · exact fun hpath => ⟨o, m, hplan, hpath⟩
    rw [List.foldl_cons]
    refine (hpaths' path).trans ?_
    rw [hpaths path, List.exists_mem_cons_iff, hfirst, or_assoc]
    exact or_congr_right (or_congr_right
      (exists_congr fun copy' => and_congr_right fun hcopy' => hback copy' hcopy'))

/-! ## Planned copies -/

theorem newMethods_sublist (exposed methods : List Decl) :
    (newMethods exposed methods).Sublist methods := by
  induction methods generalizing exposed with
  | nil => exact .slnil
  | cons method rest ih =>
    rw [newMethods]
    split
    · exact (ih _).cons_cons _
    · exact (ih _).cons _

theorem newMethods_subset (exposed methods : List Decl) : newMethods exposed methods ⊆ methods :=
  (newMethods_sublist exposed methods).subset

theorem newFields_subset (names : List String) (fields : List Decl) :
    newFields names fields ⊆ fields := by
  induction fields generalizing names with
  | nil => exact List.Subset.refl _
  | cons field rest ih =>
    rw [newFields]
    split
    · exact List.cons_subset_cons _ (ih _)
    · exact List.subset_cons_of_subset _ (ih _)

theorem declares_of_mem_hiddenSuperclasses (hs : s.WellFormed) (hd : s.Declares d)
    (h : c ∈ s.hiddenSuperclasses d) : s.Declares c :=
  View.declares_of_mem_superclassesAbove (.alone s) hs hd
    (List.takeWhile_subset _ h)

/-- A planned copy is one of a method or a field of a superclass. -/
theorem plans_of_mem_copiesFrom (hs : s.WellFormed) (ho : s.Declares o) (hclass : o.asClass?.isSome)
    {methods : List Decl} {names : List String} {chain : List Decl}
    (hchain : ∀ above ∈ chain, s.Declares above) (h : copy ∈ copiesFrom o methods names chain) :
    ∃ m, s.Plans copy o m := by
  induction chain generalizing methods names with
  | nil => cases h
  | cons above rest ih =>
    rw [copiesFrom] at h
    rcases List.mem_append.mp h with h | h
    · obtain ⟨m, hm, rfl⟩ := List.mem_map.mp h
      have habove := hchain above List.mem_cons_self
      rcases List.mem_append.mp hm with hm | hm
      · have hm := newMethods_subset _ _ hm
        rw [Decl.methods_eq] at hm
        exact ⟨m, ho, hclass, ((mem_members hs habove).mp hm).1,
          .inl (role_of_member hs habove .method hm), rfl, rfl⟩
      · have hm := newFields_subset _ _ hm
        rw [Decl.fields_eq] at hm
        exact ⟨m, ho, hclass, ((mem_members hs habove).mp hm).1,
          .inr (role_of_member hs habove .field hm), rfl, rfl⟩
    · exact ih (fun x hx => hchain x (List.mem_cons_of_mem _ hx)) h

theorem plans_of_mem_inheritedCopies (hs : s.WellFormed) (h : copy ∈ s.inheritedCopies) :
    ∃ o m, s.Plans copy o m := by
  obtain ⟨o, ho, h⟩ := List.mem_flatMap.mp h
  obtain ⟨hdo, hclass⟩ := (mem_classDecls hs).mp ho
  split at h
  · cases h
  · exact ⟨o, plans_of_mem_copiesFrom hs hdo hclass
      (fun above => declares_of_mem_hiddenSuperclasses hs hdo) h⟩

/-! ## Names of copied fields -/

/-- The class and the name of the copy, if it is one of a field. -/
def copyKey? (s : Surface) (copy : InheritedCopy) : Option (Option ItemId × String) :=
  (s.decl? copy.source).bind fun m => m.asField?.map fun info => (some copy.owner, info.name)

theorem Plans.copyKey?_eq (h : s.Plans copy o m) :
    s.copyKey? copy = m.asField?.map fun info => (some o.id, info.name) := by
  have hm : s.decl? copy.source = some m := by
    rw [h.sourceId]
    exact h.source
  rw [copyKey?, hm, Option.bind_some, h.ownerId]

theorem fieldKey?_copiedParameters (method : ItemId) (rank : Nat) {ps : List Item}
    (h : ∀ p ∈ ps, p.fieldKey? = none) {item : Item} (hitem : item ∈ copiedParameters method rank ps) :
    item.fieldKey? = none := by
  induction ps generalizing rank with
  | nil => cases hitem
  | cons p rest ih =>
    rw [copiedParameters] at hitem
    rcases List.mem_cons.mp hitem with rfl | hitem
    · have hp := h p List.mem_cons_self
      unfold Item.fieldKey? at hp ⊢
      cases hpay : p.payload with
      | field info => rw [hpay] at hp; cases hp
      | _ => rfl
    · exact ih _ (fun q hq => h q (List.mem_cons_of_mem _ hq)) hitem

theorem fieldKeys_addCopy (hs : s.WellFormed) (h : s.Plans copy o m) :
    fieldKeys (addCopy s.items copy) = fieldKeys s.items ++ (s.copyKey? copy).toList := by
  have hitem := h.getElem?
  rw [h.copyKey?_eq]
  rcases h.isMember with hrole | hrole
  · cases hp : m.item.payload <;> rw [hp] at hrole <;> cases hrole
    rename_i info
    have hps : ∀ p ∈ m.parameters.map Decl.item, p.fieldKey? = none := by
      intro item hitem
      obtain ⟨p, hp, rfl⟩ := List.mem_map.mp hitem
      rw [Decl.parameters_eq] at hp
      obtain ⟨pinfo, hpay⟩ := payload_of_parameter hs h.source hp
      rw [Item.fieldKey?, hpay]
    rw [map_parameters h.source, hp] at hps
    change ∀ p ∈ info.parameters.filterMap fun p => s.items[p.index]?, p.fieldKey? = none at hps
    rw [addCopy_method hitem hp rfl, fieldKeys_withMember (Draft.fieldKey?_linkClass _ _)
      fun _ hq => fieldKey?_copiedParameters _ _ hps hq]
    congr 1
    rw [Decl.asField?, hp]
    rfl
  · cases hp : m.item.payload <;> rw [hp] at hrole <;> cases hrole
    rw [addCopy_field hitem hp, fieldKeys_withMember (Draft.fieldKey?_linkClass _ _)
      fun _ hq => by cases hq]
    congr 1
    rw [Decl.asField?, hp, ← h.ownerId]
    rfl

theorem fieldKeys_foldl_addCopy (hs : s.WellFormed) {copies : List InheritedCopy}
    (h : ∀ copy ∈ copies, ∃ o m, s.Plans copy o m) :
    fieldKeys (copies.foldl addCopy s.items) = fieldKeys s.items ++ copies.filterMap s.copyKey? := by
  induction copies generalizing s with
  | nil => exact (List.append_nil _).symm
  | cons copy rest ih =>
    obtain ⟨o, m, hplan⟩ := h copy List.mem_cons_self
    obtain ⟨hkeeps, _⟩ := keeps_addCopy hs hplan
    have hrest := exists_plans_addCopy hs hplan fun copy' hc => h copy' (List.mem_cons_of_mem _ hc)
    have hkeys : rest.filterMap ({ s with items := addCopy s.items copy } : Surface).copyKey? =
        rest.filterMap s.copyKey? := by
      refine List.filterMap_congr fun copy' hcopy' => ?_
      obtain ⟨o', m', hplan'⟩ := h copy' (List.mem_cons_of_mem _ hcopy')
      obtain ⟨o'', hdo'', hoid, _⟩ := hkeeps.exists_namesake hplan'.owner
      obtain ⟨m'', hdm'', hmid, hn⟩ := hkeeps.exists_namesake hplan'.source
      have hm'' : ({ s with items := addCopy s.items copy } : Surface).decl? copy'.source =
          some m'' := by
        rw [hplan'.sourceId, ← hmid]
        exact hdm''
      have hname := congrArg (Option.map FieldInfo.name) hn.map_asField?
      rw [Option.map_map, Option.map_map] at hname
      have hkey := congrArg (Option.map fun name : String => (some copy'.owner, name)) hname
      rw [Option.map_map, Option.map_map] at hkey
      rw [copyKey?, hm'', hplan'.copyKey?_eq, ← hplan'.ownerId]
      exact hkey
    rw [List.foldl_cons]
    refine (ih hkeeps.right hrest).trans ?_
    rw [hkeys]
    change fieldKeys (addCopy s.items copy) ++ _ = _
    rw [fieldKeys_addCopy hs hplan, List.append_assoc, List.filterMap_cons]
    cases s.copyKey? copy <;> rfl

theorem newFields_names (names : List String) (fields : List Decl) :
    ((newFields names fields).map Decl.name).Nodup ∧
      ∀ f ∈ newFields names fields, f.name ∉ names := by
  induction fields generalizing names with
  | nil => exact ⟨.nil, fun _ h => by cases h⟩
  | cons field rest ih =>
    rw [newFields]
    split
    · next h =>
      obtain ⟨hnodup, hnew⟩ := ih (names ++ [field.name])
      have hfresh : field.name ∉ names := by
        have hcontains := (Bool.and_eq_true_iff.mp h).2
        simpa using hcontains
      refine ⟨List.nodup_cons.mpr ⟨?_, hnodup⟩, ?_⟩
      · intro hmem
        obtain ⟨f, hf, hname⟩ := List.mem_map.mp hmem
        exact hnew f hf (List.mem_append_right _ (by rw [hname]; exact List.mem_singleton_self _))
      · intro f hf
        rcases List.mem_cons.mp hf with rfl | hf
        · exact hfresh
        · exact fun hmem => hnew f hf (List.mem_append_left _ hmem)
    · exact ih names

/-- Copies of methods have no keys. -/
theorem copyKeys_newMethods (hs : s.WellFormed) (owner : Decl) (methods : List Decl) {above : Decl}
    (habove : s.Declares above) : (newMethods methods above.methods).filterMap (fun m => s.copyKey?
      { owner := owner.id, source := m.id, declaredIn := above.id }) = [] := by
  refine List.filterMap_eq_nil_iff.mpr fun m hm => ?_
  have hm := newMethods_subset _ _ hm
  rw [Decl.methods_eq] at hm
  have hdm : s.decl? m.id = some m := ((mem_members hs habove).mp hm).1
  have hrole := role_of_member hs habove .method hm
  have hnone : m.asField? = none := by
    unfold Decl.asField?
    cases hp : m.item.payload with
    | field info => rw [hp] at hrole; cases hrole
    | _ => rfl
  rw [copyKey?, hdm, Option.bind_some, hnone]
  rfl

/-- Copies of fields have the names of the fields. -/
theorem copyKeys_newFields (hs : s.WellFormed) (owner : Decl) (names : List String) {above : Decl}
    (habove : s.Declares above) : (newFields names above.fields).filterMap (fun m => s.copyKey?
      { owner := owner.id, source := m.id, declaredIn := above.id }) =
        ((newFields names above.fields).map Decl.name).map fun name => (some owner.id, name) := by
  rw [List.map_map, ← List.filterMap_eq_map]
  refine List.filterMap_congr fun m hm => ?_
  have hm := newFields_subset _ _ hm
  rw [Decl.fields_eq] at hm
  have hdm : s.decl? m.id = some m := ((mem_members hs habove).mp hm).1
  obtain ⟨info, hinfo⟩ := Option.isSome_iff_exists.mp
    (m.isSome_asField?.mpr (role_of_member hs habove .field hm))
  rw [copyKey?, hdm, Option.bind_some, hinfo, Option.map_some, ← m.name_of_asField? hinfo]
  rfl

/-- A class takes copies of fields under different names, none of which it had. -/
theorem copyKeys_copiesFrom (hs : s.WellFormed) (owner : Decl) (methods : List Decl)
    (names : List String) {chain : List Decl} (hchain : ∀ above ∈ chain, s.Declares above) :
    ∃ added : List String, (copiesFrom owner methods names chain).filterMap s.copyKey? =
      added.map (fun name => (some owner.id, name)) ∧ added.Nodup ∧ ∀ name ∈ added, name ∉ names := by
  induction chain generalizing methods names with
  | nil => exact ⟨[], rfl, .nil, fun _ h => by cases h⟩
  | cons above rest ih =>
    have habove := hchain above List.mem_cons_self
    obtain ⟨added, hkeys, hnodup, hnew⟩ := ih (methods ++ newMethods methods above.methods)
      (names ++ (newFields names above.fields).map Decl.name)
      fun x hx => hchain x (List.mem_cons_of_mem _ hx)
    obtain ⟨hfields, hfresh⟩ := newFields_names names above.fields
    refine ⟨(newFields names above.fields).map Decl.name ++ added, ?_, ?_, ?_⟩
    · rw [copiesFrom, List.filterMap_append, List.filterMap_map, List.filterMap_append, List.map_append,
        ← copyKeys_newFields hs owner names habove, hkeys]
      refine congrArg (· ++ _) ?_
      exact congrArg (· ++ _) (copyKeys_newMethods hs owner methods habove)
    · refine List.nodup_append.mpr ⟨hfields, hnodup, ?_⟩
      rintro name hname _ hmem rfl
      exact hnew name hmem (List.mem_append_right _ hname)
    · intro name hname
      rcases List.mem_append.mp hname with hname | hname
      · obtain ⟨f, hf, rfl⟩ := List.mem_map.mp hname
        exact hfresh f hf
      · exact fun hmem => hnew name hname (List.mem_append_left _ hmem)

theorem pairwise_classDecls (hs : s.WellFormed) :
    s.classDecls.Pairwise fun c d => c.id ≠ d.id := by
  refine pairwise_decls ?_
  rw [values_eq_map_toList]
  refine List.pairwise_map.mpr ?_
  refine s.classes.distinct_keys_toList.imp_of_mem ?_
  rintro ⟨name, id⟩ ⟨name', id'⟩ h h' hne rfl
  rw [Std.TreeMap.mem_toList_iff_getElem?_eq_some] at h h'
  obtain ⟨d, hd, _, hname⟩ := (classes_iff hs).mp h
  obtain ⟨d', hd', _, hname'⟩ := (classes_iff hs).mp h'
  rw [hd] at hd'
  cases hd'
  refine hne ?_
  rw [← hname, ← hname']
  exact Std.ReflCmp.compare_self

/-- A key that names a class is that of one of its fields. -/
theorem mem_names_of_fieldKey (hs : s.WellFormed) (hc : s.Declares c) (hclass : c.asClass?.isSome)
    {name : String} (h : (some c.id, name) ∈ fieldKeys s.items) : name ∈ c.fields.map Decl.name := by
  obtain ⟨item, hitem, hkey⟩ := List.mem_filterMap.mp h
  obtain ⟨i, hi⟩ := List.mem_iff_getElem?.mp hitem
  rw [Array.getElem?_toList] at hi
  obtain ⟨info, hp, hparent, rfl⟩ : ∃ info, item.payload = .field info ∧
      item.parent = some c.id ∧ info.name = name := by
    unfold Item.fieldKey? at hkey
    cases hp : item.payload with
    | field info =>
      rw [hp, Option.some.injEq, Prod.mk.injEq] at hkey
      exact ⟨info, rfl, hkey⟩
    | _ => rw [hp] at hkey; cases hkey
  have hslot : c.item.payload.role.hasSlot .fields = true := by
    obtain ⟨package, outer, hrole⟩ := role_of_asClass? hclass
    rw [hrole]
    rfl
  have hmem : (⟨s, ⟨i⟩, item⟩ : Decl) ∈ c.fields := by
    rw [Decl.fields_eq]
    refine (mem_members_iff_holds hs hc hslot).mpr ⟨declares_of_getElem? hi, ?_, hparent⟩
    rw [Decl.asField?, hp]
    rfl
  refine List.mem_map.mpr ⟨_, hmem, ?_⟩
  rw [Decl.name, hp]
  rfl

/-- With the copies, the fields of a class still have different names. -/
theorem FieldsApart.withInheritedCopies (hs : s.WellFormed) (h : s.FieldsApart) :
    s.withInheritedCopies.FieldsApart := by
  change (fieldKeys (s.inheritedCopies.foldl addCopy s.items)).Nodup
  rw [fieldKeys_foldl_addCopy hs fun _ hc => plans_of_mem_inheritedCopies hs hc]
  have hclass : ∀ c, s.Declares c → ∃ added : List String,
      ((if c.isEffectively .hidden then []
        else copiesFrom c c.methods (c.fields.map Decl.name) (s.hiddenSuperclasses c)).filterMap
          s.copyKey?) = added.map (fun name => (some c.id, name)) ∧ added.Nodup ∧
        ∀ name ∈ added, name ∉ c.fields.map Decl.name := by
    intro c hc
    split
    · exact ⟨[], rfl, .nil, fun _ h => by cases h⟩
    · exact copyKeys_copiesFrom hs c _ _ fun _ => declares_of_mem_hiddenSuperclasses hs hc
  unfold inheritedCopies
  rw [List.filterMap_flatMap]
  refine List.nodup_append.mpr ⟨h, List.nodup_flatMap.mpr ⟨fun c hc => ?_, ?_⟩, ?_⟩
  · obtain ⟨added, hadded, hnodup, _⟩ := hclass c ((mem_classDecls hs).mp hc).1
    rw [hadded]
    exact hnodup.map fun a b hab => (Prod.mk.inj hab).2
  · refine (pairwise_classDecls hs).imp_of_mem fun {c d} hc hd hne => ?_
    obtain ⟨added, hadded, _⟩ := hclass c ((mem_classDecls hs).mp hc).1
    obtain ⟨added', hadded', _⟩ := hclass d ((mem_classDecls hs).mp hd).1
    change List.Disjoint _ _
    beta_reduce
    rw [hadded, hadded']
    intro key hkey hkey'
    obtain ⟨_, _, rfl⟩ := List.mem_map.mp hkey
    obtain ⟨_, _, hkey'⟩ := List.mem_map.mp hkey'
    exact hne (Option.some.inj (Prod.mk.inj hkey').1).symm
  · rintro key hkey _ hcopied rfl
    obtain ⟨c, hc, hcopied⟩ := List.mem_flatMap.mp hcopied
    obtain ⟨hdc, hisClass⟩ := (mem_classDecls hs).mp hc
    obtain ⟨added, hadded, _, hnew⟩ := hclass c hdc
    rw [hadded] at hcopied
    obtain ⟨name, hname, rfl⟩ := List.mem_map.mp hcopied
    exact hnew name hname (mem_names_of_fieldKey hs hdc hisClass hkey)

end Surface

end ApiSurface
