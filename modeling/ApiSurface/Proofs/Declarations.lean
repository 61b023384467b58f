import ApiSurface.Comparison
import ApiSurface.Proofs.Finishing

/-! # Declarations of a well-formed surface

The lists of a declaration hold exactly the declarations that belong to it, each once; every declaration
has one class and one package that it belongs to, and names single out packages and classes. -/
namespace ApiSurface

open Arena

def Surface.Declares (s : Surface) (d : Decl) : Prop := s.decl? d.id = some d

/-- Declared at the same place, the one in the first surface and the other in the second. -/
structure Surface.Peers (s t : Surface) (d d' : Decl) : Prop where
  left : s.Declares d
  right : t.Declares d'
  id : d'.id = d.id

def Decl.members (d : Decl) (slot : Slot) : List Decl := d.surface.decls (d.item.payload.slot slot)

namespace Decl

variable (d : Decl)

theorem constructors_eq : d.constructors = d.members .constructors := by
  unfold constructors members asClass?
  cases d.item.payload <;> rfl

theorem methods_eq : d.methods = d.members .methods := by
  unfold methods members asClass?
  cases d.item.payload <;> rfl

theorem fields_eq : d.fields = d.members .fields := by
  unfold fields members asClass?
  cases d.item.payload <;> rfl

theorem classes_eq : d.classes = d.members .classes := by
  unfold classes members asPackage?
  cases d.item.payload <;> rfl

theorem parameters_eq : d.parameters = d.members .parameters := by
  unfold parameters members asMethod?
  cases d.item.payload <;> rfl

theorem isSome_asMethod? :
    d.asMethod?.isSome ↔ d.item.payload.role = .method ∨ d.item.payload.role = .constructor := by
  unfold asMethod?
  cases d.item.payload <;> simp [Payload.role]

theorem isSome_asField? : d.asField?.isSome ↔ d.item.payload.role = .field := by
  unfold asField?
  cases d.item.payload <;> simp [Payload.role]

theorem name_of_asField? {info : FieldInfo} (h : d.asField? = some info) : d.name = info.name := by
  unfold asField? at h
  unfold name
  cases hp : d.item.payload with
  | field info' => rw [hp] at h; cases h; rfl
  | _ => rw [hp] at h; cases h

end Decl

namespace Surface

variable {s : Surface} {c d e : Decl} {slot : Slot}

theorem Declares.surface (h : s.Declares d) : d.surface = s := (decl?_eq_some h).1

theorem Declares.getElem? (h : s.Declares d) : s.items[d.id.index]? = some d.item :=
  (decl?_eq_some h).2.2

theorem Declares.eq_of_id (hd : s.Declares d) (he : s.Declares e) (h : d.id = e.id) : d = e := by
  have hd' : s.decl? e.id = some d := h ▸ hd
  exact Option.some.inj (hd'.symm.trans he)

theorem Declares.roleAt (h : s.Declares d) :
    roleAt (shapes s.items) d.id = some d.item.payload.role := by
  rw [Arena.roleAt, getElem?_shapes, h.getElem?]
  rfl

theorem Declares.of_roleAt {id : ItemId} {role : Role}
    (h : Arena.roleAt (shapes s.items) id = some role) :
    ∃ d, s.decl? id = some d ∧ s.Declares d ∧ d.id = id ∧ d.item.payload.role = role := by
  rw [Arena.roleAt, getElem?_shapes] at h
  cases hi : s.items[id.index]? with
  | none => rw [hi] at h; cases h
  | some item =>
    rw [hi] at h
    have hd : s.decl? id = some ⟨s, id, item⟩ := by rw [decl?, hi]; rfl
    exact ⟨⟨s, id, item⟩, hd, hd, rfl, Option.some.inj h⟩

theorem Declares.placed (hs : s.WellFormed) (h : s.Declares d) :
    Placed (shapes s.items) d.id.index d.item.shape := by
  refine hs.placed _ _ ?_
  rw [getElem?_shapes, h.getElem?]
  rfl

theorem mem_allDecls : d ∈ s.allDecls ↔ s.Declares d := by
  constructor
  · exact fun h => (mem_decls h).2
  · intro h
    obtain ⟨_, _, hitem⟩ := decl?_eq_some h
    have hlt : d.id.index < s.size := (Array.getElem?_eq_some_iff.mp hitem).1
    exact List.mem_filterMap.mpr
      ⟨d.id, List.mem_map.mpr ⟨d.id.index, List.mem_range.mpr hlt, rfl⟩, h⟩

theorem map_id_decls {ids : List ItemId} (h : ∀ id ∈ ids, (s.decl? id).isSome) :
    (s.decls ids).map Decl.id = ids := by
  rw [decls, List.map_filterMap]
  refine (List.filterMap_eq_map_iff_forall_eq_some.mpr fun id hid => ?_).trans (List.map_id ids)
  obtain ⟨d, hd⟩ := Option.isSome_iff_exists.mp (h id hid)
  rw [hd, Option.map_some, (decl?_eq_some hd).2.1]
  rfl

theorem map_id_allDecls (s : Surface) : s.allDecls.map Decl.id = (List.range s.size).map ItemId.mk := by
  refine map_id_decls fun id hid => ?_
  obtain ⟨i, hi, rfl⟩ := List.mem_map.mp hid
  simp [decl?, Array.getElem?_eq_getElem (List.mem_range.mp hi)]

theorem length_allDecls (s : Surface) : s.allDecls.length = s.size := by
  rw [← List.length_map Decl.id, map_id_allDecls, List.length_map, List.length_range]

theorem getElem?_allDecls (s : Surface) (i : Nat) : s.allDecls[i]? = s.decl? ⟨i⟩ := by
  cases hd : s.allDecls[i]? with
  | none =>
    rw [List.getElem?_eq_none_iff, length_allDecls] at hd
    rw [decl?, Array.getElem?_eq_none hd]
    rfl
  | some d =>
    have hlt : i < s.size := by
      rw [← length_allDecls]
      exact (List.getElem?_eq_some_iff.mp hd).1
    have hid := congrArg (·[i]?) s.map_id_allDecls
    simp only [List.getElem?_map, hd, List.getElem?_range hlt, Option.map_some, Option.some.injEq] at hid
    have hdeclares : s.Declares d := mem_allDecls.mp (List.mem_of_getElem? hd)
    rw [← hid]
    exact hdeclares.symm

theorem map_item_allDecls (s : Surface) : s.allDecls.map Decl.item = s.items.toList := by
  apply List.ext_getElem?
  intro i
  rw [List.getElem?_map, getElem?_allDecls, decl?, Option.map_map, Array.getElem?_toList]
  exact Option.map_id_apply

/-! ## Members -/

/-- A list holds exactly what belongs in it. -/
theorem mem_members (hs : s.WellFormed) (hd : s.Declares d) :
    e ∈ d.members slot ↔ s.Declares e ∧ slot.lists d.id e.item.shape = true := by
  have hl : d.item.payload.slot slot = listedFrom slot d.id 0 (shapes s.items) := by
    rw [← slotAt_of_getElem? hd.getElem?]
    exact hs.listed slot d.id.index
  unfold Decl.members
  rw [hd.surface, hl]
  constructor
  · intro h
    obtain ⟨hid, he⟩ := mem_decls h
    obtain ⟨shape, hshape, hlists⟩ := mem_listedFrom_zero.mp hid
    rw [getElem?_shapes, Declares.getElem? he] at hshape
    cases hshape
    exact ⟨he, hlists⟩
  · rintro ⟨he, hlists⟩
    refine List.mem_filterMap.mpr ⟨e.id, mem_listedFrom_zero.mpr ⟨e.item.shape, ?_, hlists⟩, he⟩
    rw [getElem?_shapes, he.getElem?]
    rfl

theorem pairwise_decls {ids : List ItemId} (h : ids.Nodup) :
    (s.decls ids).Pairwise fun d e => d.id ≠ e.id := by
  refine List.Pairwise.filterMap s.decl? ?_ h
  intro id id' hne d hd e he
  rw [(decl?_eq_some hd).2.1, (decl?_eq_some he).2.1]
  exact hne

theorem pairwise_members (hs : s.WellFormed) (hd : s.Declares d) (slot : Slot) :
    (d.members slot).Pairwise fun a b => a.id ≠ b.id := by
  have hl : d.item.payload.slot slot = listedFrom slot d.id 0 (shapes s.items) := by
    rw [← slotAt_of_getElem? hd.getElem?]
    exact hs.listed slot d.id.index
  unfold Decl.members
  rw [hd.surface, hl]
  exact pairwise_decls (nodup_listedFrom 0 _)

/-- The lists of two items share no member. -/
theorem owner_of_mem_members (hs : s.WellFormed) (hc : s.Declares c) (hd : s.Declares d)
    (h : e ∈ c.members slot) (h' : e ∈ d.members slot) : c = d := by
  obtain ⟨_, hl⟩ := (mem_members hs hc).mp h
  obtain ⟨_, hl'⟩ := (mem_members hs hd).mp h'
  refine hc.eq_of_id hd ?_
  cases slot <;> cases hr : e.item.shape.role <;> simp only [Slot.lists, hr] at hl hl'
  all_goals simp_all

/-! ## Names -/

theorem payload_of_role_package {name : String} (h : d.item.payload.role = .package name) :
    d.asPackage?.isSome ∧ d.name = name := by
  unfold Decl.asPackage? Decl.name
  cases hp : d.item.payload <;> rw [hp] at h <;> cases h
  exact ⟨rfl, rfl⟩

theorem role_of_asPackage? (h : d.asPackage?.isSome) : d.item.payload.role = .package d.name := by
  unfold Decl.asPackage? at h
  unfold Decl.name
  cases hp : d.item.payload with
  | package info => rfl
  | _ => simp [hp] at h

theorem role_of_asClass? (h : d.asClass?.isSome) :
    ∃ package outer, d.item.payload.role = .ofClass d.name package outer := by
  unfold Decl.asClass? at h
  unfold Decl.name
  cases hp : d.item.payload with
  | ofClass info => exact ⟨info.package, info.outer, rfl⟩
  | _ => simp [hp] at h

/-- A name finds the package that has it. -/
theorem findPackage?_eq_some (hs : s.WellFormed) {name : String} :
    s.findPackage? name = some d ↔ s.Declares d ∧ d.asPackage?.isSome ∧ d.name = name := by
  unfold findPackage?
  constructor
  · intro h
    obtain ⟨id, hid, hd⟩ := Option.bind_eq_some_iff.mp h
    have hr := (hs.packages name id).mp hid
    obtain ⟨d', hd', hdecl, rfl, hrole⟩ := Declares.of_roleAt hr
    rw [hd] at hd'
    cases hd'
    exact ⟨hdecl, payload_of_role_package hrole⟩
  · rintro ⟨hd, hp, rfl⟩
    have hr := hd.roleAt
    rw [role_of_asPackage? hp] at hr
    rw [(hs.packages d.name d.id).mpr hr]
    exact hd

theorem mem_packageDecls (hs : s.WellFormed) :
    d ∈ s.packageDecls ↔ s.Declares d ∧ d.asPackage?.isSome := by
  unfold packageDecls
  constructor
  · intro h
    obtain ⟨hid, hd⟩ := mem_decls h
    obtain ⟨name, hn⟩ := (mem_values _).mp hid
    have hf : s.findPackage? name = some d := by
      unfold findPackage?
      rw [hn]
      exact hd
    obtain ⟨hd, hp, _⟩ := (findPackage?_eq_some hs).mp hf
    exact ⟨hd, hp⟩
  · rintro ⟨hd, hp⟩
    refine List.mem_filterMap.mpr ⟨d.id, (mem_values _).mpr ⟨d.name, ?_⟩, hd⟩
    refine (hs.packages d.name d.id).mpr ?_
    rw [hd.roleAt, role_of_asPackage? hp]

/-- A name singles out a class. -/
theorem Declares.eq_of_class_name (hs : s.WellFormed) (hd : s.Declares d) (he : s.Declares e)
    (hcd : d.asClass?.isSome) (hce : e.asClass?.isSome) (hn : d.name = e.name) : d = e := by
  have hid : ∀ {d : Decl}, s.Declares d → d.asClass?.isSome → s.classes[d.name]? = some d.id := by
    intro d hd hc
    obtain ⟨package, outer, hr⟩ := role_of_asClass? hc
    refine (hs.classes d.name d.id).mpr ⟨package, outer, ?_⟩
    rw [hd.roleAt, hr]
  have h := hid hd hcd
  rw [hn, hid he hce] at h
  exact hd.eq_of_id he (Option.some.inj h).symm

end Surface

/-! ## Where a declaration belongs -/

namespace Decl

/-- The class that a declaration is, or is a part of. -/
def homeClass? (d : Decl) : Option Decl :=
  match d.item.payload with
  | .package _ => none
  | .ofClass _ => some d
  | .method _ | .constructor _ | .field _ => d.parent?
  | .parameter _ => d.parent?.bind parent?

/-- The package that a declaration is, or is a part of. -/
def homePackage? (d : Decl) : Option Decl :=
  match d.item.payload with
  | .package _ => some d
  | _ => d.homeClass?.bind fun c => c.asClass?.bind fun info => c.surface.decl? info.package

/-- The list of a class that a declaration is in, or the method of a parameter is in. -/
def homeSlot? (d : Decl) : Option Slot :=
  let subject := d.containingMethod?.getD d
  match subject.item.payload with
  | .constructor _ => some .constructors
  | .method _ => some .methods
  | .field _ => some .fields
  | _ => none

/-- The id of a declaration, of a parameter that of its method. -/
def bearer? (d : Decl) : Option ItemId :=
  match d.item.payload with
  | .parameter _ => d.item.parent
  | _ => some d.id

end Decl

namespace Surface

variable {s : Surface} {c d e p : Decl} {slot : Slot}

theorem parent_of_member (hs : s.WellFormed) (hc : s.Declares c) (he : e ∈ c.members slot)
    (hslot : slot ≠ .classes) (hslot' : slot ≠ .nested) : e.item.parent = some c.id := by
  obtain ⟨_, hl⟩ := (mem_members hs hc).mp he
  cases slot <;> cases hr : e.item.shape.role <;> simp only [Slot.lists, hr] at hl
  all_goals first | contradiction | exact eq_of_beq hl

theorem parent?_of_member (hs : s.WellFormed) (hc : s.Declares c) (he : e ∈ c.members slot)
    (hslot : slot ≠ .classes) (hslot' : slot ≠ .nested) : e.parent? = some c := by
  obtain ⟨hdecl, _⟩ := (mem_members hs hc).mp he
  unfold Decl.parent?
  rw [parent_of_member hs hc he hslot hslot', hdecl.surface]
  exact hc

theorem role_of_member (hs : s.WellFormed) (hc : s.Declares c) {role : Role}
    (hslot : MemberRole role slot) : e ∈ c.members slot → e.item.payload.role = role := by
  intro he
  obtain ⟨_, hl⟩ := (mem_members hs hc).mp he
  have hr : e.item.shape.role = e.item.payload.role := rfl
  cases hslot <;> cases hp : e.item.payload.role <;> simp only [Slot.lists, hr, hp] at hl
  all_goals first | rfl | cases hl

/-- A member that is no field is a method or a constructor. -/
theorem isSome_asMethod?_of_member (hs : s.WellFormed) (hc : s.Declares c) {role : Role}
    (hslot : MemberRole role slot) (hrole : role ≠ .field) (he : e ∈ c.members slot) :
    e.asMethod?.isSome := by
  have hpay := role_of_member hs hc hslot he
  cases hslot with
  | constructor => exact e.isSome_asMethod?.mpr (.inr hpay)
  | method => exact e.isSome_asMethod?.mpr (.inl hpay)
  | field => exact (hrole rfl).elim

theorem payload_of_parameter (hs : s.WellFormed) (hc : s.Declares c)
    (he : e ∈ c.members .parameters) : ∃ info, e.item.payload = .parameter info := by
  obtain ⟨_, hl⟩ := (mem_members hs hc).mp he
  have hr : e.item.shape.role = e.item.payload.role := rfl
  cases hp : e.item.payload <;> simp only [Slot.lists, hr, hp, Payload.role] at hl
  case parameter info => exact ⟨info, rfl⟩
  all_goals cases hl

theorem asParameter?_of_member (hs : s.WellFormed) (hc : s.Declares c) {role : Role}
    (hslot : MemberRole role slot) (he : e ∈ c.members slot) : e.asParameter? = none := by
  have hrole := role_of_member hs hc hslot he
  unfold Decl.asParameter?
  cases hpay : e.item.payload with
  | parameter info => rw [hpay] at hrole; cases hslot <;> cases hrole
  | _ => rfl

theorem class_of_mem_classes (hs : s.WellFormed) (hp : s.Declares p) (he : e ∈ p.members .classes) :
    e.asClass?.isSome ∧ e.homePackage? = some p := by
  obtain ⟨hdecl, hl⟩ := (mem_members hs hp).mp he
  have hr : e.item.shape.role = e.item.payload.role := rfl
  cases hpay : e.item.payload <;> simp only [Slot.lists, hr, hpay, Payload.role] at hl
  case ofClass info =>
    have hc : e.asClass? = some info := by rw [Decl.asClass?, hpay]
    refine ⟨by rw [hc]; rfl, ?_⟩
    simp only [Decl.homePackage?, Decl.homeClass?, hpay, Option.bind_some, hc, hdecl.surface]
    rw [eq_of_beq hl]
    exact hp
  all_goals cases hl

/-- The classes of a package with one name are one. -/
theorem eq_of_mem_classes {c c' : Decl} (hs : s.WellFormed) (hp : s.Declares p)
    (hc : c ∈ p.members .classes) (hc' : c' ∈ p.members .classes) (hname : c.name = c'.name) : c = c' := by
  have hd := ((mem_members hs hp).mp hc).1
  have hd' := ((mem_members hs hp).mp hc').1
  exact hd.eq_of_class_name hs hd' (class_of_mem_classes hs hp hc).1
    (class_of_mem_classes hs hp hc').1 hname

theorem homeClass?_of_member (hs : s.WellFormed) (hc : s.Declares c) {role : Role}
    (hslot : MemberRole role slot) (he : e ∈ c.members slot) : e.homeClass? = some c := by
  have hrole := role_of_member hs hc hslot he
  have hp := parent?_of_member hs hc he (by cases hslot <;> exact Slot.noConfusion)
    (by cases hslot <;> exact Slot.noConfusion)
  unfold Decl.homeClass?
  cases hpay : e.item.payload <;> rw [hpay] at hrole <;> cases hslot <;> cases hrole
  all_goals exact hp

theorem homeClass?_of_parameter (hs : s.WellFormed) (hc : s.Declares c) {role : Role}
    (hslot : MemberRole role slot) (hm : d ∈ c.members slot) (he : e ∈ d.members .parameters) :
    e.homeClass? = some c := by
  have hd := ((mem_members hs hc).mp hm).1
  obtain ⟨info, hpay⟩ := payload_of_parameter hs hd he
  have hp := parent?_of_member hs hd he Slot.noConfusion Slot.noConfusion
  have hp' := parent?_of_member hs hc hm (by cases hslot <;> exact Slot.noConfusion)
    (by cases hslot <;> exact Slot.noConfusion)
  simp only [Decl.homeClass?, hpay, hp, Option.bind_some, hp']

theorem homeClass?_of_asClass? (h : c.asClass?.isSome) : c.homeClass? = some c := by
  unfold Decl.asClass? at h
  unfold Decl.homeClass?
  cases hpay : c.item.payload with
  | ofClass info => rfl
  | _ => simp [hpay] at h

theorem homeSlot?_of_asClass? (h : c.asClass?.isSome) : c.homeSlot? = none := by
  unfold Decl.asClass? at h
  unfold Decl.homeSlot? Decl.containingMethod?
  cases hpay : c.item.payload with
  | ofClass info => simp [hpay]
  | _ => simp [hpay] at h

theorem homeSlot?_of_asPackage? (h : c.asPackage?.isSome) : c.homeSlot? = none := by
  unfold Decl.asPackage? at h
  unfold Decl.homeSlot? Decl.containingMethod?
  cases hpay : c.item.payload with
  | package info => simp [hpay]
  | _ => simp [hpay] at h

theorem homeClass?_of_asPackage? (h : c.asPackage?.isSome) : c.homeClass? = none := by
  unfold Decl.asPackage? at h
  unfold Decl.homeClass?
  cases hpay : c.item.payload with
  | package info => rfl
  | _ => simp [hpay] at h

theorem homePackage?_of_homeClass? (hc : c.homePackage? = some p) (hclass : c.asClass?.isSome)
    (he : e.homeClass? = some c) : e.homePackage? = some p := by
  have hce := homeClass?_of_asClass? hclass
  unfold Decl.homePackage? at hc ⊢
  rw [hce] at hc
  rw [he]
  cases hpay : e.item.payload with
  | package info => simp [Decl.homeClass?, hpay] at he
  | _ =>
    cases hpay' : c.item.payload with
    | ofClass info => simpa [hpay'] using hc
    | _ => simp [Decl.asClass?, hpay'] at hclass

theorem homeSlot?_of_member (hs : s.WellFormed) (hc : s.Declares c) {role : Role}
    (hslot : MemberRole role slot) (he : e ∈ c.members slot) : e.homeSlot? = some slot := by
  have hrole := role_of_member hs hc hslot he
  unfold Decl.homeSlot? Decl.containingMethod?
  cases hpay : e.item.payload <;> rw [hpay] at hrole <;> cases hslot <;> cases hrole
  all_goals simp [hpay]

theorem containingMethod?_of_parameter (hs : s.WellFormed) (hd : s.Declares d)
    (he : e ∈ d.members .parameters) : e.containingMethod? = some d := by
  obtain ⟨info, hpay⟩ := payload_of_parameter hs hd he
  rw [Decl.containingMethod?, hpay, parent?_of_member hs hd he Slot.noConfusion Slot.noConfusion]

theorem homeSlot?_of_parameter (hs : s.WellFormed) (hc : s.Declares c) {role : Role}
    (hslot : MemberRole role slot) (hm : d ∈ c.members slot) (he : e ∈ d.members .parameters) :
    e.homeSlot? = some slot := by
  have hrole := role_of_member hs hc hslot hm
  unfold Decl.homeSlot?
  rw [containingMethod?_of_parameter hs ((mem_members hs hc).mp hm).1 he]
  cases hpay' : d.item.payload <;> rw [hpay'] at hrole <;> cases hslot <;> cases hrole
  all_goals simp [hpay']

theorem bearer?_of_member (hs : s.WellFormed) (hc : s.Declares c) {role : Role}
    (hslot : MemberRole role slot) (he : e ∈ c.members slot) : e.bearer? = some e.id := by
  have hrole := role_of_member hs hc hslot he
  unfold Decl.bearer?
  cases hpay : e.item.payload with
  | parameter info => rw [hpay] at hrole; cases hslot <;> cases hrole
  | _ => rfl

theorem bearer?_of_parameter (hs : s.WellFormed) (hd : s.Declares d)
    (he : e ∈ d.members .parameters) : e.bearer? = some d.id := by
  obtain ⟨info, hpay⟩ := payload_of_parameter hs hd he
  obtain ⟨_, hl⟩ := (mem_members hs hd).mp he
  have hr : e.item.shape.role = .parameter info.position := by
    change e.item.payload.role = _
    rw [hpay]
    rfl
  simp only [Slot.lists, hr] at hl
  simp only [Decl.bearer?, hpay]
  exact eq_of_beq hl

end Surface

end ApiSurface
