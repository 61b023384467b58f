import ApiSurface.Proofs.Arrangement
import ApiSurface.Proofs.Paths

/-! # Paths of growing surfaces

New items leave the paths of the old ones as they are, since only the lists of members and of overridden
methods of old items change. So the paths of a surface that has grown are the old ones and those of the
new items, each the trait of the item before the path of what it is declared in. -/
namespace ApiSurface

open Arena Surface

def Payload.core : Payload → Payload
  | .package info => .package { info with classes := [] }
  | .ofClass info => .ofClass { info with constructors := [], methods := [], fields := [], nested := [] }
  | .method info => .method { info with overridden := [] }
  | other => other

def Item.core (item : Item) : Item := { item with payload := item.payload.core }

def Item.parameterType? (item : Item) : Option TypeRef :=
  match item.payload with
  | .parameter info => some info.type
  | _ => none

namespace Item

variable {item item' : Item}

theorem bare_core (item : Item) : item.core.bare = item.bare := by
  unfold core bare
  cases item.payload <;> rfl

theorem bare_of_core (h : item'.core = item.core) : item'.bare = item.bare := by
  rw [← bare_core item', h, bare_core]

theorem parent_of_core (h : item'.core = item.core) : item'.parent = item.parent :=
  (congrArg Item.parent h :)

theorem slot_parameters_core (item : Item) :
    item.core.payload.slot .parameters = item.payload.slot .parameters := by
  unfold core
  cases item.payload <;> rfl

theorem slot_parameters_of_core (h : item'.core = item.core) :
    item'.payload.slot .parameters = item.payload.slot .parameters := by
  rw [← slot_parameters_core item', h, slot_parameters_core]

theorem parameterType?_core (item : Item) : item.core.parameterType? = item.parameterType? := by
  unfold core parameterType?
  cases item.payload <;> rfl

theorem parameterType?_of_core (h : item'.core = item.core) :
    item'.parameterType? = item.parameterType? := by
  rw [← parameterType?_core item', h, parameterType?_core]

end Item

namespace Draft

theorem core_linkClass (slot : Slot) (id : ItemId) (item : Item) :
    (linkClass slot id item).core = item.core := by
  unfold linkClass Item.core
  cases item.payload <;> cases slot <;> rfl

theorem core_linkPackage (id : ItemId) (item : Item) : (linkPackage id item).core = item.core := by
  unfold linkPackage Item.core
  cases item.payload <;> rfl

end Draft

namespace Surface

def HasPath (s : Surface) (path : List Trait) : Prop := ∃ d, s.Declares d ∧ d.path = path

def PathAt (s : Surface) (id : ItemId) (path : List Trait) : Prop :=
  ∃ d, s.Declares d ∧ d.id = id ∧ d.path = path

/-- `s'` has the items of `s` first, with lists that may have changed. -/
structure Keeps (s s' : Surface) : Prop where
  left : s.WellFormed
  right : s'.WellFormed
  isPartial : s'.isPartial = s.isPartial
  item : ∀ (i : Nat) (item : Item), s.items[i]? = some item →
    ∃ item' : Item, s'.items[i]? = some item' ∧ item'.core = item.core

variable {s s' : Surface} {d : Decl}

theorem declares_of_getElem? {i : Nat} {item : Item} (h : s.items[i]? = some item) :
    s.Declares ⟨s, ⟨i⟩, item⟩ := by
  rw [Declares, decl?, h]
  rfl

theorem parameterTypes_eq (hd : s.Declares d) : d.parameterTypes =
    (d.item.payload.slot .parameters).filterMap fun id =>
      s.items[id.index]?.bind Item.parameterType? := by
  unfold Decl.parameterTypes
  rw [Decl.parameters_eq, Decl.members, Surface.decls, hd.surface, List.filterMap_filterMap]
  refine List.filterMap_congr fun id _ => ?_
  rw [decl?]
  cases s.items[id.index]? with
  | none => rfl
  | some item =>
    rw [Option.map_some, Option.bind_some, Option.bind_some]
    unfold Decl.asParameter? Item.parameterType?
    cases item.payload <;> rfl

theorem path_of_parent (hs : s.WellFormed) {p : Decl} (hp : s.Declares p) (hd : s.Declares d)
    (hparent : d.item.parent = some p.id) : d.path = d.trait :: p.path := by
  rw [(hd.inPlace hs).path_eq, hd.parent?_eq hp hparent]
  rfl

namespace Keeps

theorem refl (hs : s.WellFormed) : s.Keeps s := ⟨hs, hs, rfl, fun _ item hi => ⟨item, hi, rfl⟩⟩

theorem trans {s'' : Surface} (h : s.Keeps s') (h' : s'.Keeps s'') : s.Keeps s'' where
  left := h.left
  right := h'.right
  isPartial := h'.isPartial.trans h.isPartial
  item i item hi := by
    obtain ⟨item', hi', hcore⟩ := h.item i item hi
    obtain ⟨item'', hi'', hcore'⟩ := h'.item i item' hi'
    exact ⟨item'', hi'', hcore'.trans hcore⟩

/-- The declaration at the same place. -/
theorem exists_declares (h : s.Keeps s') (hd : s.Declares d) :
    ∃ d', s'.Declares d' ∧ d'.id = d.id ∧ d'.item.core = d.item.core := by
  obtain ⟨item', hi', hcore⟩ := h.item d.id.index d.item hd.getElem?
  refine ⟨⟨s', d.id, item'⟩, ?_, rfl, hcore⟩
  rw [Declares, decl?, hi']
  rfl

theorem core_eq (h : s.Keeps s') (hd : s.Declares d) {d' : Decl} (hd' : s'.Declares d')
    (hid : d'.id = d.id) : d'.item.core = d.item.core := by
  obtain ⟨e, he, heid, hcore⟩ := h.exists_declares hd
  rwa [hd'.eq_of_id he (hid.trans heid.symm)]

/-- What the items of the parameters say, if it does not hang on the lists that may have changed. -/
theorem filterMap_parameters {α : Type} (h : s.Keeps s') (hd : s.Declares d) {f : Item → Option α}
    (hf : ∀ {item item' : Item}, item'.core = item.core → f item' = f item) :
    (d.item.payload.slot .parameters).filterMap (fun id => s'.items[id.index]?.bind f) =
      (d.item.payload.slot .parameters).filterMap fun id => s.items[id.index]?.bind f := by
  refine List.filterMap_congr fun id hid => ?_
  obtain ⟨k, hk⟩ := List.mem_iff_getElem?.mp hid
  obtain ⟨p, hp, _⟩ := hd.position_eq h.left hk
  obtain ⟨item, hitem, hcore⟩ := h.item id.index p.item (decl?_eq_some hp).2.2
  rw [hitem, (decl?_eq_some hp).2.2, Option.bind_some, Option.bind_some, hf hcore]

theorem parameterTypes (h : s.Keeps s') (hd : s.Declares d) {d' : Decl} (hd' : s'.Declares d')
    (hid : d'.id = d.id) : d'.parameterTypes = d.parameterTypes := by
  rw [parameterTypes_eq hd, parameterTypes_eq hd', Item.slot_parameters_of_core (h.core_eq hd hd' hid),
    h.filterMap_parameters hd Item.parameterType?_of_core]

/-- An old declaration keeps its path. -/
theorem namesake (h : s.Keeps s') (hd : s.Declares d) {d' : Decl} (hd' : s'.Declares d')
    (hid : d'.id = d.id) : d.Namesake d' := by
  induction d, hd using Declares.outward_induction generalizing d' with | step d hd ih => ?_
  have hin := hd.inPlace h.left
  have hin' := hd'.inPlace h.right
  have hcore := h.core_eq hd hd' hid
  refine ⟨hin, hin', by rw [hd.surface, hd'.surface, h.isPartial], ?_⟩
  have htrait : d'.trait = d.trait := by
    unfold Decl.trait
    rw [Item.bare_of_core hcore, h.parameterTypes hd hd' hid]
  rw [hin.path_eq, hin'.path_eq, htrait]
  rcases hd.parent_cases h.left with ⟨_, hnone⟩ | ⟨p, hdp, hp, hlt, _⟩
  · have hnone' : d'.item.parent = none := by rw [Item.parent_of_core hcore, hnone]
    rw [Decl.parent?, Decl.parent?, hnone, hnone']
    rfl
  · obtain ⟨p', hdp', hid', _⟩ := h.exists_declares hdp
    have hp' : d'.item.parent = some p'.id := by rw [Item.parent_of_core hcore, hp, hid']
    rw [hd.parent?_eq hdp hp, hd'.parent?_eq hdp' hp', Option.map_some, Option.map_some,
      (ih p hdp hlt hdp' hid').path]

theorem exists_namesake (h : s.Keeps s') (hd : s.Declares d) :
    ∃ d', s'.Declares d' ∧ d'.id = d.id ∧ d.Namesake d' := by
  obtain ⟨d', hd', hid, _⟩ := h.exists_declares hd
  exact ⟨d', hd', hid, h.namesake hd hd' hid⟩

theorem pathAt (h : s.Keeps s') {id : ItemId} {path : List Trait} (hat : s.PathAt id path) :
    s'.PathAt id path := by
  obtain ⟨d, hd, rfl, rfl⟩ := hat
  obtain ⟨d', hd', hid, hn⟩ := h.exists_namesake hd
  exact ⟨d', hd', hid, hn.path⟩

/-- The paths are the old ones and those of the new items. -/
theorem hasPath_iff (h : s.Keeps s') {path : List Trait} : s'.HasPath path ↔
    s.HasPath path ∨ ∃ d', s'.Declares d' ∧ s.size ≤ d'.id.index ∧ d'.path = path := by
  constructor
  · rintro ⟨d', hd', rfl⟩
    by_cases hlt : d'.id.index < s.size
    · have hd : s.Declares ⟨s, d'.id, s.items[d'.id.index]⟩ := by
        rw [Declares, decl?, Array.getElem?_eq_getElem hlt]
        rfl
      exact .inl ⟨_, hd, (h.namesake hd hd' rfl).path.symm⟩
    · exact .inr ⟨d', hd', Nat.le_of_not_lt hlt, rfl⟩
  · rintro (⟨d, hd, rfl⟩ | ⟨d', hd', _, rfl⟩)
    · obtain ⟨d', hd', _, hn⟩ := h.exists_namesake hd
      exact ⟨d', hd', hn.path⟩
    · exact ⟨d', hd', rfl⟩

/-- The path of an item in an old one. -/
theorem path_of_parent (h : s.Keeps s') {p d' : Decl} (hp : s.Declares p) (hd' : s'.Declares d')
    (hparent : d'.item.parent = some p.id) : d'.path = d'.trait :: p.path := by
  obtain ⟨p', hdp', hid, hn⟩ := h.exists_namesake hp
  rw [Surface.path_of_parent h.right hdp' hd' (by rw [hparent, hid]), hn.path]

end Keeps

/-- A declaration without parameters. -/
theorem trait_of_slot (hd : s.Declares d) (hslot : d.item.payload.slot .parameters = []) :
    d.trait = ⟨d.item.bare, []⟩ := by
  unfold Decl.trait
  rw [parameterTypes_eq hd, hslot]
  rfl

/-! ## One more item -/

/-- A surface with one more package or class at the end. -/
theorem keeps_push (hs : s.WellFormed) (hs' : s'.WellFormed) (hpartial : s'.isPartial = s.isPartial)
    {item : Item} (hslot : item.payload.slot .parameters = [])
    (hold : ∀ i < s.size, s'.items[i]?.map Item.core = s.items[i]?.map Item.core)
    (hnew : s'.items[s.size]? = some item) :
    s.Keeps s' ∧ ∃ d', s'.Declares d' ∧ d'.id = ⟨s.size⟩ ∧ d'.item = item ∧
      d'.trait = ⟨item.bare, []⟩ := by
  refine ⟨⟨hs, hs', hpartial, fun i item hi => ?_⟩, ?_⟩
  · have h := hold i (Array.getElem?_eq_some_iff.mp hi).1
    rw [hi] at h
    exact Option.map_eq_some_iff.mp h
  · have hd' := declares_of_getElem? hnew
    exact ⟨_, hd', rfl, rfl, trait_of_slot hd' hslot⟩

end Surface

/-! ## One more member -/

namespace Arena

variable {items : Array Item} {member : Item} {parameters : List Item} {owner : ItemId}
  {link : Item → Item} {i : Nat}

theorem getElem?_withMember_old (hlink : ∀ item, (link item).core = item.core) (hi : i < items.size) :
    (withMember items member parameters owner link)[i]?.map Item.core = items[i]?.map Item.core := by
  have hi' : i < (items.push member).size := by rw [Array.size_push]; omega
  rw [withMember, Array.getElem?_modify, Array.getElem?_append_left hi',
    Array.getElem?_push_lt hi, ← Array.getElem?_eq_getElem hi]
  split
  · rw [Option.map_map]
    exact congrArg (Option.map · items[i]?) (funext hlink)
  · rfl

theorem getElem?_withMember_new (howner : owner.index < items.size) (k : Nat) :
    (withMember items member parameters owner link)[items.size + k]? = (member :: parameters)[k]? := by
  rw [withMember, Array.getElem?_modify, if_neg (by omega)]
  cases k with
  | zero =>
    have hlt : items.size + 0 < (items.push member).size := by rw [Array.size_push]; omega
    rw [Array.getElem?_append_left hlt, Nat.add_zero, Array.getElem?_push_size]
    rfl
  | succ k =>
    have hle : (items.push member).size ≤ items.size + (k + 1) := by rw [Array.size_push]; omega
    rw [Array.getElem?_append_right hle, Array.size_push, List.getElem?_toArray,
      List.getElem?_cons_succ]
    congr 1
    omega

end Arena

/-- What a member says of itself, when it is added with these parameters. -/
def Item.memberTrait (member : Item) (parameters : List Item) : Trait :=
  { item := member.bare, parameterTypes := parameters.filterMap Item.parameterType? }

/-- The paths of a member and its parameters, in a class with the given path. -/
def Item.MemberPaths (member : Item) (parameters : List Item) (owner path : List Trait) : Prop :=
  path = member.memberTrait parameters :: owner ∨
    ∃ p ∈ parameters, path = ⟨p.bare, []⟩ :: member.memberTrait parameters :: owner

namespace Surface

/-- The items of `s'` behind those of `s` are a member of the class `owner` and its parameters. -/
structure NewMember (s s' : Surface) (owner : Decl) (member : Item) (parameters : List Item) :
    Prop where
  keeps : s.Keeps s'
  declared : s.Declares owner
  items : ∀ k : Nat, s'.items[s.size + k]? = (member :: parameters)[k]?
  parent : member.parent = some owner.id
  shapes : parameters.map Item.shape = parameterShapes ⟨s.size⟩ parameters.length
  listed : member.payload.slot .parameters =
    (List.range parameters.length).map fun k => ⟨s.size + 1 + k⟩

variable {s s' : Surface} {owner : Decl} {member : Item} {parameters : List Item} {link : Item → Item}

namespace NewMember

theorem declares (h : NewMember s s' owner member parameters) : s'.Declares ⟨s', ⟨s.size⟩, member⟩ :=
  declares_of_getElem? (h.items 0)

theorem trait (h : NewMember s s' owner member parameters) :
    (⟨s', ⟨s.size⟩, member⟩ : Decl).trait = member.memberTrait parameters := by
  have hids : (List.range parameters.length).map (fun k => s'.items[s.size + 1 + k]?) =
      parameters.map some := by
    refine List.ext_getElem (by simp) fun k _ hk => ?_
    have hk' : k < parameters.length := by simpa using hk
    rw [List.getElem_map, List.getElem_map, List.getElem_range, Nat.add_assoc, Nat.add_comm 1 k,
      h.items, List.getElem?_cons_succ, List.getElem?_eq_getElem hk']
  unfold Decl.trait Item.memberTrait
  rw [parameterTypes_eq h.declares, h.listed, List.filterMap_map]
  have htypes := congrArg (List.filterMap (Option.bind · Item.parameterType?)) hids
  rw [List.filterMap_map, List.filterMap_map] at htypes
  exact congrArg (Trait.mk member.bare) htypes

theorem path (h : NewMember s s' owner member parameters) :
    (⟨s', ⟨s.size⟩, member⟩ : Decl).path = member.memberTrait parameters :: owner.path := by
  rw [h.keeps.path_of_parent h.declared h.declares h.parent, h.trait]

theorem shape_of_parameter (h : NewMember s s' owner member parameters) {k : Nat} {p : Item}
    (hp : parameters[k]? = some p) :
    p.parent = some ⟨s.size⟩ ∧ ∃ position, p.payload.role = .parameter position := by
  have hshape : some p.shape = (parameterShapes ⟨s.size⟩ parameters.length)[k]? := by
    rw [← h.shapes, List.getElem?_map, hp]
    rfl
  rw [parameterShapes, List.getElem?_map] at hshape
  obtain ⟨k', _, hk'⟩ := Option.map_eq_some_iff.mp hshape.symm
  exact ⟨(congrArg Shape.parent hk').symm, k', (congrArg Shape.role hk').symm⟩

/-- A parameter stands behind the member, and its path goes through it. -/
theorem parameter (h : NewMember s s' owner member parameters) {k : Nat} {p : Item}
    (hp : parameters[k]? = some p) : s'.Declares ⟨s', ⟨s.size + (k + 1)⟩, p⟩ ∧
      (⟨s', ⟨s.size + (k + 1)⟩, p⟩ : Decl).path =
        ⟨p.bare, []⟩ :: member.memberTrait parameters :: owner.path := by
  have hd : s'.Declares ⟨s', ⟨s.size + (k + 1)⟩, p⟩ :=
    declares_of_getElem? ((h.items (k + 1)).trans hp)
  obtain ⟨hparent, _, hrole⟩ := h.shape_of_parameter hp
  have hslot : p.payload.slot .parameters = [] := by
    cases hpay : p.payload <;> rw [hpay] at hrole <;> cases hrole
    rfl
  refine ⟨hd, ?_⟩
  rw [Surface.path_of_parent h.keeps.right h.declares hd hparent, trait_of_slot hd hslot, h.path]

theorem hasPath_iff (h : NewMember s s' owner member parameters) {path : List Trait} :
    s'.HasPath path ↔ s.HasPath path ∨ member.MemberPaths parameters owner.path path := by
  rw [h.keeps.hasPath_iff]
  constructor
  · rintro (hold | ⟨d', hd', hle, rfl⟩)
    · exact .inl hold
    · -- A new item is the member or one of its parameters.
      right
      obtain ⟨k, hk⟩ := Nat.exists_eq_add_of_le hle
      have hid : d'.id = ⟨s.size + k⟩ := congrArg ItemId.mk hk
      cases k with
      | zero => exact .inl (hd'.eq_of_id h.declares hid ▸ h.path)
      | succ k =>
        have hitem := hd'.getElem?
        rw [hid, h.items, List.getElem?_cons_succ] at hitem
        obtain ⟨hd, hpath⟩ := h.parameter hitem
        refine .inr ⟨d'.item, List.mem_of_getElem? hitem, ?_⟩
        rw [← hpath, ← hd'.eq_of_id hd hid]
  · rintro (hold | rfl | ⟨p, hp, rfl⟩)
    · exact .inl hold
    · exact .inr ⟨_, h.declares, Nat.le_refl _, h.path⟩
    · obtain ⟨k, hk⟩ := List.mem_iff_getElem?.mp hp
      obtain ⟨hd, hpath⟩ := h.parameter hk
      exact .inr ⟨_, hd, Nat.le_add_right _ _, hpath⟩

end NewMember

/-- A surface with one more member in a class, its parameters behind it. -/
theorem newMember_of_withMember (hs : s.WellFormed) (hs' : s'.WellFormed)
    (hpartial : s'.isPartial = s.isPartial) (howner : s.Declares owner)
    (hitems : s'.items = withMember s.items member parameters owner.id link)
    (hlink : ∀ item, (link item).core = item.core) (hparent : member.parent = some owner.id)
    (hps : parameters.map Item.shape = parameterShapes ⟨s.size⟩ parameters.length)
    (hlist : member.payload.slot .parameters =
      (List.range parameters.length).map fun k => ⟨s.size + 1 + k⟩) :
    NewMember s s' owner member parameters := by
  have hlt : owner.id.index < s.items.size := (Array.getElem?_eq_some_iff.mp howner.getElem?).1
  have hnew (k : Nat) : s'.items[s.size + k]? = (member :: parameters)[k]? := by
    rw [hitems]
    exact getElem?_withMember_new hlt k
  have hkeeps : s.Keeps s' := by
    refine ⟨hs, hs', hpartial, fun i item hi => ?_⟩
    have h : (withMember s.items member parameters owner.id link)[i]?.map Item.core = _ :=
      getElem?_withMember_old hlink (Array.getElem?_eq_some_iff.mp hi).1
    rw [hi, ← hitems] at h
    exact Option.map_eq_some_iff.mp h
  exact ⟨hkeeps, howner, hnew, hparent, hps, hlist⟩

end Surface

end ApiSurface
