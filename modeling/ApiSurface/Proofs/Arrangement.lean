import ApiSurface.Proofs.Ancestry

/-! # The arrangement of built surfaces

Items refer to each other in both directions and tables refer to them by name. However a surface was
built, and whichever own flags were changed since, all of these agree: an item is listed where its parent
says it belongs, in the order in which it was declared, and found by the name that it has. -/
namespace ApiSurface

open Arena

/-- Whether `d` belongs in the list of `owner`. A package lists the classes that name it as theirs,
however deep they are nested; the other lists go by the parent. -/
def Slot.Holds (slot : Slot) (owner d : Decl) : Prop :=
  match slot with
  | .classes => d.asClass?.map (·.package) = some owner.id
  | .nested => d.asClass?.isSome ∧ d.item.parent = some owner.id
  | .constructors => d.isConstructor ∧ d.item.parent = some owner.id
  | .methods => d.asMethod?.isSome ∧ ¬d.isConstructor ∧ d.item.parent = some owner.id
  | .fields => d.asField?.isSome ∧ d.item.parent = some owner.id
  | .parameters => d.asParameter?.isSome ∧ d.item.parent = some owner.id

/-- All links, lists, tables, ranks and positions of the surface agree. -/
structure Surface.Arranged (s : Surface) : Prop where
  rank_lt : ∀ d e, s.Declares d → s.Declares e → d.id.index < e.id.index → d.item.rank < e.item.rank
  root : ∀ d, s.Declares d → (d.item.parent = none ↔ d.asPackage?.isSome)
  parent : ∀ d id, s.Declares d → d.item.parent = some id →
    ∃ p, s.decl? id = some p ∧ id.index < d.id.index ∧ p.item.payload.mayHold d.item.payload
  increasing : ∀ d slot, s.Declares d →
    (d.item.payload.slot slot).Pairwise fun a b => a.index < b.index
  listed : ∀ d slot id, s.Declares d → d.item.payload.role.hasSlot slot →
    (id ∈ d.item.payload.slot slot ↔ ∃ e, s.decl? id = some e ∧ slot.Holds d e)
  position : ∀ d k id, s.Declares d → (d.item.payload.slot .parameters)[k]? = some id →
    ∃ p, s.decl? id = some p ∧ p.asParameter?.map (·.position) = some k
  packages : ∀ name id, s.packages[name]? = some id ↔
    ∃ d, s.decl? id = some d ∧ d.asPackage?.isSome ∧ d.name = name
  classes : ∀ name id, s.classes[name]? = some id ↔
    ∃ d, s.decl? id = some d ∧ d.asClass?.isSome ∧ d.name = name
  home : ∀ d info, s.Declares d → d.asClass? = some info → ∃ p, s.decl? info.package = some p ∧
    p.asPackage?.isSome ∧ d.lineage.getLast? = some p
  containing : ∀ d, s.Declares d → d.asClass?.isSome →
    d.containingClass? = d.parent?.filter fun p => p.asClass?.isSome

namespace Surface

variable {s : Surface} {d e : Decl}

/-! ## Parents -/

theorem Declares.root_iff (hs : s.WellFormed) (hd : s.Declares d) :
    d.item.parent = none ↔ d.asPackage?.isSome := by
  rcases hd.parent_cases hs with ⟨hp, hnone⟩ | ⟨p, _, hp, _, hholds⟩
  · simp [hnone, hp]
  · constructor
    · intro h
      rw [hp] at h
      cases h
    · intro h
      obtain ⟨info, hinfo⟩ := Option.isSome_iff_exists.mp h
      rw [payload_of_asPackage? hinfo] at hholds
      cases hpp : p.item.payload <;> simp [hpp, Payload.mayHold] at hholds

theorem Declares.parent_holds (hs : s.WellFormed) (hd : s.Declares d) {id : ItemId}
    (h : d.item.parent = some id) :
    ∃ p, s.decl? id = some p ∧ id.index < d.id.index ∧ p.item.payload.mayHold d.item.payload := by
  rcases hd.parent_cases hs with ⟨_, hnone⟩ | ⟨p, hdp, hp, hlt, hholds⟩
  · rw [hnone] at h
    cases h
  · rw [hp] at h
    cases h
    exact ⟨p, hdp, hlt, hholds⟩

/-! ## Lists -/

theorem Declares.slot_eq (hs : s.WellFormed) (hd : s.Declares d) (slot : Slot) :
    d.item.payload.slot slot = listedFrom slot d.id 0 (shapes s.items) := by
  rw [← slotAt_of_getElem? hd.getElem?]
  exact hs.listed slot d.id.index

theorem map_id_members (hs : s.WellFormed) (hd : s.Declares d) {slot : Slot} :
    (d.members slot).map Decl.id = d.item.payload.slot slot := by
  rw [Decl.members, hd.surface]
  refine map_id_decls fun id hid => ?_
  rw [hd.slot_eq hs, mem_listedFrom_zero] at hid
  obtain ⟨shape, hshape, _⟩ := hid
  rw [getElem?_shapes] at hshape
  obtain ⟨item, hitem, _⟩ := Option.map_eq_some_iff.mp hshape
  rw [decl?, hitem]
  rfl

theorem Declares.nested_iff (hs : s.WellFormed) (hd : s.Declares d) (he : s.Declares e)
    (hdc : d.asClass?.isSome) {info : ClassInfo} (hinfo : e.asClass? = some info) :
    info.outer = some d.id ↔ e.item.parent = some d.id := by
  rcases he.class_cases hs hinfo with
    ⟨p, hdp, hpackage, _, hparent, ho, _⟩ | ⟨c, _, _, _, _, hparent, ho, _⟩
  · have hne : p.id ≠ d.id := by
      intro h
      rw [hdp.eq_of_id hd h, asPackage?_eq_none hdc] at hpackage
      cases hpackage
    simp [ho, hparent, hne]
  · rw [ho, hparent]

theorem Declares.lists_iff_holds (hs : s.WellFormed) (hd : s.Declares d) (he : s.Declares e)
    {slot : Slot} (hslot : d.item.payload.role.hasSlot slot = true) :
    slot.lists d.id e.item.shape = true ↔ slot.Holds d e := by
  have hrole : e.item.shape.role = e.item.payload.role := rfl
  have hparent : e.item.shape.parent = e.item.parent := rfl
  cases slot with
  | nested =>
    have hdc : d.asClass?.isSome := by
      unfold Decl.asClass?
      cases hpay : d.item.payload <;> rw [hpay] at hslot <;> first | rfl | cases hslot
    unfold Slot.Holds
    cases hinfo : e.asClass? with
    | none =>
      have hno : ∀ info, e.item.payload ≠ .ofClass info := by
        intro info hpay
        rw [Decl.asClass?, hpay] at hinfo
        cases hinfo
      cases hpay : e.item.payload <;> simp_all [Slot.lists, Payload.role]
    | some info =>
      have hpay := payload_of_asClass? hinfo
      simp only [Slot.lists, hrole, hpay, Payload.role, beq_iff_eq, Option.isSome_some, true_and]
      exact hd.nested_iff hs he hdc hinfo
  | _ =>
    cases hpay : e.item.payload <;>
      simp [Slot.lists, Slot.Holds, hrole, hparent, hpay, Payload.role, Decl.asClass?,
        Decl.isConstructor, Decl.asMethod?, Decl.asField?, Decl.asParameter?]

theorem Declares.listed_iff (hs : s.WellFormed) (hd : s.Declares d) {slot : Slot}
    (hslot : d.item.payload.role.hasSlot slot = true) {id : ItemId} :
    id ∈ d.item.payload.slot slot ↔ ∃ e, s.decl? id = some e ∧ slot.Holds d e := by
  rw [hd.slot_eq hs, mem_listedFrom_zero]
  constructor
  · rintro ⟨shape, hshape, hlists⟩
    rw [getElem?_shapes] at hshape
    obtain ⟨item, hitem, rfl⟩ := Option.map_eq_some_iff.mp hshape
    have he : s.decl? id = some ⟨s, id, item⟩ := by rw [decl?, hitem]; rfl
    have hde : s.Declares ⟨s, id, item⟩ := he
    exact ⟨_, he, (hd.lists_iff_holds hs hde hslot).mp hlists⟩
  · rintro ⟨e, he, hholds⟩
    obtain ⟨_, hid, hitem⟩ := decl?_eq_some he
    have hde : s.Declares e := by rw [Declares, hid]; exact he
    refine ⟨e.item.shape, ?_, (hd.lists_iff_holds hs hde hslot).mpr hholds⟩
    rw [getElem?_shapes, hitem]
    rfl

/-- The parameters of a method stand right behind it. -/
theorem Declares.position_eq (hs : s.WellFormed) (hd : s.Declares d) {k : Nat} {id : ItemId}
    (h : (d.item.payload.slot .parameters)[k]? = some id) :
    ∃ p, s.decl? id = some p ∧ p.asParameter?.map (·.position) = some k := by
  obtain ⟨n, hn⟩ := hs.parameters d.id.index
  rw [slotAt_of_getElem? hd.getElem?] at hn
  have hid : id = ⟨d.id.index + 1 + k⟩ := by
    rw [hn, List.getElem?_map] at h
    obtain ⟨k', hk', rfl⟩ := Option.map_eq_some_iff.mp h
    obtain ⟨_, rfl⟩ := List.getElem?_eq_some_iff.mp hk'
    rw [List.getElem_range]
  have hp : ∃ p, p ∈ d.members .parameters ∧ p.id = id := by
    have hmem := List.mem_of_getElem? h
    rw [hd.slot_eq hs, mem_listedFrom_zero] at hmem
    obtain ⟨shape, hshape, hlists⟩ := hmem
    rw [getElem?_shapes] at hshape
    obtain ⟨item, hitem, rfl⟩ := Option.map_eq_some_iff.mp hshape
    have hdp : s.Declares ⟨s, id, item⟩ := by rw [Declares, decl?, hitem]; rfl
    exact ⟨⟨s, id, item⟩, (mem_members hs hd).mpr ⟨hdp, hlists⟩, rfl⟩
  obtain ⟨p, hmem, rfl⟩ := hp
  obtain ⟨info, hpay⟩ := payload_of_parameter hs hd hmem
  have hdp := ((mem_members hs hd).mp hmem).1
  have hparent := parent_of_member hs hd hmem Slot.noConfusion Slot.noConfusion
  refine ⟨p, hdp, ?_⟩
  have hrole : p.item.shape.role = .parameter info.position := by
    change p.item.payload.role = _
    rw [hpay]
    rfl
  have hplaced := (hdp.placed hs).2
  simp only [hrole] at hplaced
  obtain ⟨owner, howner, hindex, _⟩ := hplaced
  have ho : some owner = some d.id := howner.symm.trans hparent
  cases ho
  have hpindex : p.id.index = d.id.index + 1 + k := congrArg ItemId.index hid
  simp only [Decl.asParameter?, hpay, Option.map_some, Option.some.injEq]
  omega

/-- The parameters of a method, each in its place. -/
theorem getElem?_parameters (hs : s.WellFormed) (hd : s.Declares d) {k : Nat} {x : Decl}
    (h : d.parameters[k]? = some x) :
    x.containingMethod? = some d ∧ x.asParameter?.map (·.position) = some k := by
  rw [Decl.parameters_eq] at h
  have hx := List.mem_of_getElem? h
  have hid : (d.item.payload.slot .parameters)[k]? = some x.id := by
    rw [← map_id_members hs hd, List.getElem?_map, h]
    rfl
  obtain ⟨p, hp, hposition⟩ := hd.position_eq hs hid
  have hdx : s.decl? x.id = some x := ((mem_members hs hd).mp hx).1
  rw [hdx] at hp
  cases hp
  exact ⟨containingMethod?_of_parameter hs hd hx, hposition⟩

/-! ## Tables -/

theorem packages_iff (hs : s.WellFormed) {name : String} {id : ItemId} :
    s.packages[name]? = some id ↔ ∃ d, s.decl? id = some d ∧ d.asPackage?.isSome ∧ d.name = name := by
  rw [hs.packages]
  constructor
  · intro hr
    obtain ⟨d, hd, _, _, hrole⟩ := Declares.of_roleAt hr
    exact ⟨d, hd, payload_of_role_package hrole⟩
  · rintro ⟨d, hd, hp, rfl⟩
    obtain ⟨_, rfl, _⟩ := decl?_eq_some hd
    have hdd : s.Declares d := hd
    rw [hdd.roleAt, role_of_asPackage? hp]

theorem classes_iff (hs : s.WellFormed) {name : String} {id : ItemId} :
    s.classes[name]? = some id ↔ ∃ d, s.decl? id = some d ∧ d.asClass?.isSome ∧ d.name = name := by
  rw [hs.classes]
  constructor
  · rintro ⟨package, outer, hr⟩
    obtain ⟨d, hd, _, _, hrole⟩ := Declares.of_roleAt hr
    refine ⟨d, hd, ?_⟩
    unfold Decl.asClass? Decl.name
    cases hpay : d.item.payload <;> rw [hpay] at hrole <;> cases hrole
    exact ⟨rfl, rfl⟩
  · rintro ⟨d, hd, hc, rfl⟩
    obtain ⟨_, rfl, _⟩ := decl?_eq_some hd
    have hdd : s.Declares d := hd
    obtain ⟨package, outer, hr⟩ := role_of_asClass? hc
    exact ⟨package, outer, by rw [hdd.roleAt, hr]⟩

/-! ## Assembly -/

theorem WellFormed.arranged (hs : s.WellFormed) : s.Arranged where
  rank_lt d e hd he hlt := by
    have hrd : d.item.rank = d.id.index := (hd.placed hs).1
    have hre : e.item.rank = e.id.index := (he.placed hs).1
    rw [hrd, hre]
    exact hlt
  root d hd := hd.root_iff hs
  parent d id hd h := hd.parent_holds hs h
  increasing d slot hd := by
    rw [hd.slot_eq hs]
    exact pairwise_listedFrom 0 _
  listed d slot id hd hslot := hd.listed_iff hs hslot
  position d k id hd h := hd.position_eq hs h
  packages name id := packages_iff hs
  classes name id := classes_iff hs
  home d info hd hc := by
    rw [← hd.homePackage?_of_class hc]
    exact hd.getLast?_lineage hs (.inl (by rw [hc]; rfl))
  containing d hd hc := hd.containingClass?_eq hs hc

end Surface

/-- Whatever calls made a draft, whether they succeeded or not, and whatever flags were changed in the
surface built from it, the surface is arranged. -/
theorem Recipe.build_arranged (r : Recipe) (serial : Nat) (location : String) :
    (r.build serial location).Arranged :=
  (r.build_wellFormed serial location).arranged

end ApiSurface
