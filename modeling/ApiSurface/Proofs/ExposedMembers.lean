import ApiSurface.Proofs.CounterpartOverrides
import ApiSurface.Proofs.Exposure

/-! # Exposed members

Every class that is not hidden lists copies of what its hidden superclasses leave to it. The copies stand
behind all the items from before, each under an id and with a rank of its own, and say what the members say
that they are copies of. Nothing else is added, and nothing else changes. -/
namespace ApiSurface

open Arena Surface

/-- The payload of a copy of the member: what the member says, where it comes from, and what is the copy's
own. -/
def Decl.copiedPayload (m : Decl) (parameters overridden : List ItemId) : Payload :=
  match m.item.payload with
  | .method info =>
    .method
      { info with
        inheritedFrom := m.item.parent
        inheritedMethod := some m.id
        isInherited := true
        parameters
        overridden }
  | .field info => .field { info with inheritedFrom := m.item.parent, isInherited := true }
  | other => other

/-- The item of a copy of the member that stands at `id` and belongs to the class. -/
def Decl.copiedItem (m c : Decl) (id : ItemId) (parameters overridden : List ItemId) : Item :=
  { m.item with
    parent := some c.id
    rank := id.index
    payload := m.copiedPayload parameters overridden }

/-- The item of a parameter of a copy, when it stands at `id`. -/
def Item.copiedParameter (item : Item) (method id : ItemId) : Item :=
  { item with parent := some method, rank := id.index }

/-- At `id` stands a copy of the member for the class, with copies of the parameters. -/
def Arena.HasCopy (items : Array Item) (c m : Decl) (id : ItemId) : Prop :=
  ∃ parameters overridden, items[id.index]? = some (m.copiedItem c id parameters overridden) ∧
    List.Forall₂ (fun p q => items[q.index]? = some (p.item.copiedParameter id q)) m.parameters parameters

/-- The item as it lists further methods and fields, if it is a class. -/
def Item.listing (item : Item) (methods fields : List ItemId) : Item :=
  { item with
    payload := match item.payload with
      | .ofClass info =>
        .ofClass { info with methods := info.methods ++ methods, fields := info.fields ++ fields }
      | other => other }

namespace Item

variable {item : Item} {methods fields : List ItemId}

theorem listing_nil (item : Item) : item.listing [] [] = item := by
  obtain ⟨_, _, _, _, _, payload⟩ := item
  cases payload with
  | ofClass info => simp [listing]
  | _ => rfl

theorem listing_of_ne (h : ∀ info, item.payload ≠ .ofClass info) : item.listing methods fields = item := by
  obtain ⟨_, _, _, _, _, payload⟩ := item
  cases payload with
  | ofClass info => exact (h info rfl).elim
  | _ => rfl

theorem linkClass_of_ne (h : ∀ info, item.payload ≠ .ofClass info) (slot : Slot) (id : ItemId) :
    Draft.linkClass slot id item = item := by
  obtain ⟨_, _, _, _, _, payload⟩ := item
  cases payload with
  | ofClass info => exact (h info rfl).elim
  | _ => rfl

theorem slot_listing {d : Decl} (h : d.asClass?.isSome) :
    (d.item.listing methods fields).payload.slot .methods = d.item.payload.slot .methods ++ methods ∧
      (d.item.listing methods fields).payload.slot .fields = d.item.payload.slot .fields ++ fields := by
  obtain ⟨info, hinfo⟩ := Option.isSome_iff_exists.mp h
  unfold listing
  rw [payload_of_asClass? hinfo]
  exact ⟨rfl, rfl⟩

theorem listing_ne_method (h : ∀ info, item.payload ≠ .method info) (info : MethodInfo) :
    (item.listing methods fields).payload ≠ .method info := by
  unfold listing
  cases hp : item.payload with
  | method info' => exact (h info' hp).elim
  | _ => exact Payload.noConfusion

/-- A class that lists one more method or field. -/
theorem linkClass_listing {slot : Slot} (h : slot = .methods ∨ slot = .fields) (id : ItemId) :
    Draft.linkClass slot id (item.listing methods fields) =
      item.listing (methods ++ if slot = .methods then [id] else [])
        (fields ++ if slot = .fields then [id] else []) := by
  unfold Draft.linkClass listing
  cases item.payload with
  | ofClass info => rcases h with rfl | rfl <;> simp [Draft.linkInfo]
  | _ => rfl

end Item

namespace Decl

variable {m : Decl} {parameters overridden : List ItemId}

theorem ne_ofClass (h : m.asClass? = none) (info : ClassInfo) : m.item.payload ≠ .ofClass info := by
  intro hp
  rw [asClass?, hp] at h
  cases h

theorem copiedPayload_ne_ofClass (h : m.asClass? = none) (info : ClassInfo) :
    m.copiedPayload parameters overridden ≠ .ofClass info := by
  unfold copiedPayload
  cases hp : m.item.payload with
  | ofClass info' => exact (ne_ofClass h info' hp).elim
  | _ => exact Payload.noConfusion

end Decl

namespace Arena

variable {items : Array Item} {member : Item} {parameters : List Item} {owner : ItemId}
  {link : Item → Item} {i : Nat}

/-- With one more member only the item of its class changes. -/
theorem getElem?_withMember_lt (hi : i < items.size) :
    (withMember items member parameters owner link)[i]? =
      if owner.index = i then items[i]?.map link else items[i]? := by
  have hi' : i < (items.push member).size := by rw [Array.size_push]; omega
  rw [withMember, Array.getElem?_modify, Array.getElem?_append_left hi', Array.getElem?_push_lt hi,
    ← Array.getElem?_eq_getElem hi]

theorem slotAt_parameters_withMember {slot : Slot} {id : ItemId} (hi : i < items.size) :
    slotAt (withMember items member parameters owner (Draft.linkClass slot id)) .parameters i =
      slotAt items .parameters i := by
  have hlink : ∀ item : Item, (Draft.linkClass slot id item).payload.slot .parameters =
      item.payload.slot .parameters := by
    intro item
    unfold Draft.linkClass
    cases item.payload <;> rfl
  unfold slotAt
  rw [getElem?_withMember_lt hi]
  split
  · rw [Option.map_map]
    exact congrArg (fun f => (Option.map f items[i]?).getD []) (funext hlink)
  · rfl

/-- A copy stays where nothing but classes changes. -/
theorem HasCopy.mono {items' : Array Item} {c m : Decl} {id : ItemId} (h : HasCopy items c m id)
    (hm : m.asClass? = none) (hps : ∀ p ∈ m.parameters, p.asClass? = none)
    (hkept : ∀ (i : Nat) (item : Item), items[i]? = some item →
      (∀ info, item.payload ≠ .ofClass info) → items'[i]? = some item) : HasCopy items' c m id := by
  obtain ⟨parameters, overridden, hitem, hparameters⟩ := h
  refine ⟨parameters, overridden, hkept _ _ hitem (Decl.copiedPayload_ne_ofClass hm), ?_⟩
  refine ((List.forall₂_and_left _ _).mpr ⟨hps, hparameters⟩).imp ?_
  rintro p q ⟨hp, hq⟩
  exact hkept _ _ hq (Decl.ne_ofClass hp)

end Arena

namespace Surface

/-! ## One copy -/

/-- A copy that a class has taken of a member, and where it stands. -/
structure Placement where
  owner : Decl
  source : Decl
  id : ItemId

/-- Where the copies stand that the class has taken of such members. -/
def placesOf (placed : List Placement) (c : Decl) (p : Decl → Bool) : List ItemId :=
  (placed.filter fun x => x.owner.id == c.id && p x.source).map Placement.id

/-- The items hold those of the surface and copies, placed like this, and nothing else. -/
structure Takes (s : Surface) (items : Array Item) (placed : List Placement) : Prop where
  size_le : s.size ≤ items.size
  old : ∀ d, s.Declares d → items[d.id.index]? = some (d.item.listing
    (placesOf placed d fun m => m.asMethod?.isSome) (placesOf placed d fun m => m.asField?.isSome))
  sources : ∀ x ∈ placed, s.Declares x.source ∧
    (x.source.item.payload.role = .method ∨ x.source.item.payload.role = .field)
  copies : ∀ x ∈ placed, s.size ≤ x.id.index ∧ HasCopy items x.owner x.source x.id
  covered : ∀ i : Nat, s.size ≤ i → i < items.size →
    ∃ x ∈ placed, x.id = ⟨i⟩ ∨ ⟨i⟩ ∈ slotAt items .parameters x.id.index
  increasing : (placed.map Placement.id).Pairwise fun a b => a.index < b.index

variable {s : Surface} {items items' : Array Item} {placed : List Placement} {c d m p : Decl}
  {id : ItemId}

theorem takes_nil (s : Surface) : Takes s s.items [] where
  size_le := Nat.le_refl _
  old d hd := by
    rw [hd.getElem?]
    exact congrArg some d.item.listing_nil.symm
  sources _ hx := (List.not_mem_nil hx).elim
  copies _ hx := (List.not_mem_nil hx).elim
  covered i hle hlt := absurd hlt (Nat.not_lt_of_le hle)
  increasing := .nil

theorem placesOf_concat (placed : List Placement) (x : Placement) (d : Decl) (test : Decl → Bool) :
    placesOf (placed ++ [x]) d test =
      placesOf placed d test ++ if x.owner.id = d.id ∧ test x.source = true then [x.id] else [] := by
  unfold placesOf
  rw [List.filter_append, List.map_append]
  congr 1
  by_cases h : x.owner.id = d.id ∧ test x.source = true
  · rw [if_pos h, List.filter_cons_of_pos (by simp [h])]
    rfl
  · rw [if_neg h, List.filter_cons_of_neg (by simpa using h)]
    rfl

theorem asClass?_of_member (h : m.item.payload.role = .method ∨ m.item.payload.role = .field) :
    m.asClass? = none := by
  unfold Decl.asClass?
  cases hp : m.item.payload with
  | ofClass info => rw [hp] at h; rcases h with h | h <;> cases h
  | _ => rfl

theorem asClass?_of_parameter (hs : s.WellFormed) (hm : s.Declares m) (hp : p ∈ m.parameters) :
    p.asClass? = none := by
  rw [Decl.parameters_eq] at hp
  obtain ⟨info, hpay⟩ := payload_of_parameter hs hm hp
  rw [Decl.asClass?, hpay]

theorem Takes.getElem?_of_ne (h : Takes s items placed) (hd : s.Declares d) (hclass : d.asClass? = none) :
    items[d.id.index]? = some d.item := by
  rw [h.old d hd, Item.listing_of_ne (Decl.ne_ofClass hclass)]

/-- One more copy of a method or a field. -/
theorem Takes.withMember (hs : s.WellFormed) (h : Takes s items placed) (hc : s.Declares c)
    (hm : s.Declares m) (hrole : m.item.payload.role = .method ∨ m.item.payload.role = .field) {slot : Slot}
    (hslot : slot = .methods ∨ slot = .fields) (hmethod : m.asMethod?.isSome = decide (slot = .methods))
    (hfield : m.asField?.isSome = decide (slot = .fields)) {member : Item} {parameters : List Item}
    (hlist : member.payload.slot .parameters =
      (List.range parameters.length).map fun k => ⟨items.size + 1 + k⟩)
    (hcopy : HasCopy (withMember items member parameters c.id (Draft.linkClass slot ⟨items.size⟩)) c m
      ⟨items.size⟩) :
    Takes s (withMember items member parameters c.id (Draft.linkClass slot ⟨items.size⟩))
      (placed ++ [⟨c, m, ⟨items.size⟩⟩]) := by
  have hlt : c.id.index < items.size :=
    Nat.lt_of_lt_of_le (Array.getElem?_eq_some_iff.mp hc.getElem?).1 h.size_le
  have hsize : (Arena.withMember items member parameters c.id
      (Draft.linkClass slot ⟨items.size⟩)).size = items.size + 1 + parameters.length := by
    simp only [Arena.withMember, Array.size_modify, Array.size_append, Array.size_push, List.size_toArray]
  have hnew : (Arena.withMember items member parameters c.id
      (Draft.linkClass slot ⟨items.size⟩))[items.size]? = some member := getElem?_withMember_new hlt 0
  have hkept : ∀ (i : Nat) (item : Item), items[i]? = some item → (∀ info, item.payload ≠ .ofClass info) →
      (Arena.withMember items member parameters c.id (Draft.linkClass slot ⟨items.size⟩))[i]? =
        some item := by
    intro i item hi hne
    rw [getElem?_withMember_lt (Array.getElem?_eq_some_iff.mp hi).1, hi, Option.map_some,
      Item.linkClass_of_ne hne, ite_self]
  exact
    { size_le := by
        have hle := h.size_le
        omega
      old := fun d hd => by
        have hold := h.old d hd
        rw [getElem?_withMember_lt (Array.getElem?_eq_some_iff.mp hold).1, hold, placesOf_concat,
          placesOf_concat, hmethod, hfield]
        by_cases hid : c.id = d.id
        · rw [if_pos (congrArg ItemId.index hid), Option.map_some, Item.linkClass_listing hslot]
          simp [hid]
        · rw [if_neg fun hh => hid (congrArg ItemId.mk hh)]
          simp [hid]
      sources := fun x hx => by
        rcases List.mem_append.mp hx with hx | hx
        · exact h.sources x hx
        · rw [List.mem_singleton.mp hx]
          exact ⟨hm, hrole⟩
      copies := fun x hx => by
        rcases List.mem_append.mp hx with hx | hx
        · obtain ⟨hle, hat⟩ := h.copies x hx
          obtain ⟨hsource, hmember⟩ := h.sources x hx
          exact ⟨hle, hat.mono (asClass?_of_member hmember) (fun p => asClass?_of_parameter hs hsource) hkept⟩
        · rw [List.mem_singleton.mp hx]
          exact ⟨h.size_le, hcopy⟩
      covered := fun i hle hi => by
        rw [hsize] at hi
        by_cases hold : i < items.size
        · obtain ⟨x, hx, hat⟩ := h.covered i hle hold
          obtain ⟨_, _, hitem, _⟩ := (h.copies x hx).2
          refine ⟨x, List.mem_append_left _ hx, ?_⟩
          rwa [slotAt_parameters_withMember (Array.getElem?_eq_some_iff.mp hitem).1]
        · refine ⟨_, List.mem_append_right _ (List.mem_singleton_self _), ?_⟩
          obtain ⟨k, rfl⟩ := Nat.exists_eq_add_of_le (Nat.le_of_not_lt hold)
          cases k with
          | zero => exact .inl rfl
          | succ k =>
            refine .inr ?_
            change _ ∈ slotAt _ _ items.size
            rw [slotAt_of_getElem? hnew, hlist]
            refine List.mem_map.mpr ⟨k, List.mem_range.mpr (by omega), congrArg ItemId.mk ?_⟩
            omega
      increasing := by
        rw [List.map_append]
        refine List.pairwise_append.mpr ⟨h.increasing, List.pairwise_singleton _ _, ?_⟩
        intro a ha b hb
        obtain ⟨x, hx, rfl⟩ := List.mem_map.mp ha
        obtain ⟨_, _, hitem, _⟩ := (h.copies x hx).2
        rw [List.mem_singleton.mp hb]
        exact (Array.getElem?_eq_some_iff.mp hitem).1 }

theorem forall₂_map_range {α β : Type} {R : α → β → Prop} {l : List α} {f : Nat → β}
    (h : ∀ (k : Nat) (a : α), l[k]? = some a → R a (f k)) :
    List.Forall₂ R l ((List.range l.length).map f) := by
  induction l generalizing f with
  | nil => exact .nil
  | cons a rest ih =>
    rw [List.length_cons, List.range_succ_eq_map, List.map_cons, List.map_map]
    exact .cons (h 0 a rfl) (ih fun k b hk => h (k + 1) b hk)

theorem getElem?_copiedParameters (method : ItemId) (rank : Nat) (ps : List Item) (k : Nat) :
    (copiedParameters method rank ps)[k]? =
      ps[k]?.map fun p => p.copiedParameter method ⟨rank + k⟩ := by
  induction ps generalizing rank k with
  | nil => rfl
  | cons p rest ih =>
    cases k with
    | zero => rfl
    | succ k =>
      rw [copiedParameters, List.getElem?_cons_succ, List.getElem?_cons_succ, ih, Nat.add_assoc,
        Nat.add_comm 1]

/-- The parameters of an old method are what they were. -/
theorem Takes.map_parameters (hs : s.WellFormed) (h : Takes s items placed) (hm : s.Declares m)
    {info : MethodInfo} (hp : m.item.payload = .method info) :
    (info.parameters.filterMap fun p => items[p.index]?) = m.parameters.map Decl.item := by
  rw [Surface.map_parameters hm, hp]
  refine List.filterMap_congr fun id hid => ?_
  have hslot : id ∈ m.item.payload.slot .parameters := by rwa [hp]
  obtain ⟨k, hk⟩ := List.mem_iff_getElem?.mp hslot
  obtain ⟨p, hat, hposition⟩ := hm.position_eq hs hk
  obtain ⟨_, rfl, hitem⟩ := decl?_eq_some hat
  have hclass : p.asClass? = none := by
    unfold Decl.asParameter? at hposition
    unfold Decl.asClass?
    cases hpay : p.item.payload with
    | ofClass info => rw [hpay] at hposition; cases hposition
    | _ => rfl
  rw [hitem, h.getElem?_of_ne hat hclass]

/-- What an exposed member is. -/
theorem source_of_mem_exposures (hs : s.WellFormed) (h : (c, m) ∈ s.exposures) : s.Declares c ∧
    s.Declares m ∧ (m.item.payload.role = .method ∨ m.item.payload.role = .field) ∧
      m.item.parent = some (c.takes m).declaredIn := by
  obtain ⟨hc, _, hm⟩ := mem_exposures hs h
  refine ⟨hc, declares_of_mem_exposedBy hs hc hm, role_of_mem_exposedBy hs hc hm, ?_⟩
  obtain ⟨_, above, habove, hmember⟩ := mem_exposedBy hm
  rw [Decl.takes, parent_of_mem_methods_or_fields hs (declares_of_mem_hiddenSuperclasses hs hc habove) hmember]
  rfl

/-- The next copy stands behind all items. -/
theorem Takes.addCopy (hs : s.WellFormed) (h : Takes s items placed) (hx : (c, m) ∈ s.exposures) :
    Takes s (Surface.addCopy items (c.takes m)) (placed ++ [⟨c, m, ⟨items.size⟩⟩]) := by
  obtain ⟨hc, hm, hrole, hparent⟩ := source_of_mem_exposures hs hx
  have hlt : c.id.index < items.size :=
    Nat.lt_of_lt_of_le (Array.getElem?_eq_some_iff.mp hc.getElem?).1 h.size_le
  have hitem : items[(c.takes m).source.index]? = some m.item :=
    h.getElem?_of_ne hm (asClass?_of_member hrole)
  cases hp : m.item.payload with
  | method info =>
    have hps := h.map_parameters hs hm hp
    rw [addCopy_method hitem hp hps, List.length_map]
    refine h.withMember hs hc hm hrole (.inl rfl) ?_ ?_ ?_ ?_
    · rw [Decl.asMethod?, hp]; rfl
    · rw [Decl.asField?, hp]; rfl
    · rw [length_copiedParameters, List.length_map]
      rfl
    · refine ⟨(List.range m.parameters.length).map fun i => ⟨items.size + 1 + i⟩, [], ?_, ?_⟩
      · refine (getElem?_withMember_new hlt 0).trans (congrArg some ?_)
        rw [Decl.copiedItem, Decl.copiedPayload, hp, hparent]
        rfl
      · refine forall₂_map_range fun k p hk => ?_
        have hat := @getElem?_withMember_new items
          (copiedMethod items.size (c.takes m) m.item info m.parameters.length)
          (copiedParameters ⟨items.size⟩ (items.size + 1) (m.parameters.map Decl.item)) c.id
          (Draft.linkClass .methods ⟨items.size⟩) hlt (k + 1)
        rw [List.getElem?_cons_succ, getElem?_copiedParameters, List.getElem?_map, hk, Option.map_some,
          Option.map_some, ← Nat.add_assoc, Nat.add_right_comm] at hat
        exact hat
  | field info =>
    rw [addCopy_field hitem hp]
    refine h.withMember hs hc hm hrole (.inr rfl) ?_ ?_ rfl ?_
    · rw [Decl.asMethod?, hp]; rfl
    · rw [Decl.asField?, hp]; rfl
    · have hnone : m.parameters = [] := by
        rw [Decl.parameters, Decl.asMethod?, hp]
        rfl
      refine ⟨[], [], (getElem?_withMember_new hlt 0).trans (congrArg some ?_), hnone ▸ .nil⟩
      rw [Decl.copiedItem, Decl.copiedPayload, hp, hparent]
      rfl
  | _ => rw [hp] at hrole; rcases hrole with hrole | hrole <;> cases hrole

/-- All copies, one after the other. -/
theorem Takes.foldl (hs : s.WellFormed) (h : Takes s items placed) {pairs : List (Decl × Decl)}
    (hpairs : ∀ x ∈ pairs, x ∈ s.exposures) : ∃ more : List Placement,
      more.map (fun x => (x.owner, x.source)) = pairs ∧
        Takes s ((pairs.map fun x => x.1.takes x.2).foldl Surface.addCopy items) (placed ++ more) := by
  induction pairs generalizing items placed with
  | nil => exact ⟨[], rfl, by rwa [List.append_nil]⟩
  | cons x rest ih =>
    obtain ⟨hhead, htail⟩ := List.forall_mem_cons.mp hpairs
    obtain ⟨more, hmore, htakes⟩ := ih (h.addCopy hs hhead) htail
    refine ⟨⟨x.1, x.2, ⟨items.size⟩⟩ :: more, by rw [List.map_cons, hmore], ?_⟩
    rwa [List.append_assoc] at htakes

/-- The copies of a surface are placed in the order in which classes take them. -/
theorem exists_takes (hs : s.WellFormed) : ∃ placed : List Placement,
    placed.map (fun x => (x.owner, x.source)) = s.exposures ∧
      Takes s s.withInheritedCopies.items placed := by
  obtain ⟨placed, hplaced, htakes⟩ := (takes_nil s).foldl hs fun _ hx => hx
  rw [← inheritedCopies_eq_map hs] at htakes
  exact ⟨placed, hplaced, htakes⟩

/-! ## Overrides -/

theorem exists_noteIn (ids : List ItemId) (item : Item) : noteIn ids item = item ∨
    ∃ info, item.payload = .method info ∧
      noteIn ids item = { item with payload := .method { info with overridden := ids } } := by
  unfold noteIn
  cases hp : item.payload with
  | method info => exact .inr ⟨info, rfl, rfl⟩
  | _ => exact .inl rfl

/-- When overrides are resolved an item stays as it is, but for what a method overrides. -/
theorem exists_getElem?_withOverrides {i : Nat} {item : Item} (h : s.items[i]? = some item) :
    ∃ overridden, s.withOverrides.items[i]? = some (noteIn overridden item) := by
  have hself : ∃ overridden, item = noteIn overridden item := by
    obtain ⟨_, _, _, _, _, payload⟩ := item
    cases payload with
    | method info => exact ⟨info.overridden, rfl⟩
    | _ => exact ⟨[], rfl⟩
  have htwice : ∀ ids ids' : List ItemId, noteIn ids (noteIn ids' item) = noteIn ids item := by
    intro ids ids'
    obtain ⟨_, _, _, _, _, payload⟩ := item
    cases payload <;> rfl
  have hfold : ∀ (entries : List (ItemId × List ItemId)) (items : Array Item),
      (∃ overridden, items[i]? = some (noteIn overridden item)) →
        ∃ overridden, (entries.foldl noteOverridden items)[i]? = some (noteIn overridden item) := by
    intro entries
    induction entries with
    | nil => exact fun _ h => h
    | cons entry rest ih =>
      rintro items ⟨overridden, hi⟩
      refine ih _ ?_
      rw [noteOverridden_eq, Array.getElem?_modify, hi]
      split
      · exact ⟨entry.2, congrArg some (htwice _ _)⟩
      · exact ⟨overridden, rfl⟩
  obtain ⟨overridden, hself⟩ := hself
  exact hfold s.overrides s.items ⟨overridden, hself ▸ h⟩

theorem getElem?_withOverrides_of_ne {i : Nat} {item : Item} (h : s.items[i]? = some item)
    (hne : ∀ info, item.payload ≠ .method info) : s.withOverrides.items[i]? = some item := by
  obtain ⟨overridden, hi⟩ := exists_getElem?_withOverrides h
  rcases exists_noteIn overridden item with heq | ⟨info, hp, _⟩
  · rw [hi, heq]
  · exact (hne info hp).elim

/-- A copy stays a copy when overrides are resolved. -/
theorem hasCopy_withOverrides (h : HasCopy s.items c m id)
    (hps : ∀ p ∈ m.parameters, p.asMethod? = none) : HasCopy s.withOverrides.items c m id := by
  obtain ⟨parameters, overridden, hitem, hparameters⟩ := h
  obtain ⟨overridden', hitem'⟩ := exists_getElem?_withOverrides hitem
  have hcopied : ∃ ids, noteIn overridden' (m.copiedItem c id parameters overridden) =
      m.copiedItem c id parameters ids := by
    unfold Decl.copiedItem Decl.copiedPayload
    cases hp : m.item.payload with
    | method info => exact ⟨overridden', rfl⟩
    | _ => exact ⟨[], rfl⟩
  obtain ⟨ids, hcopied⟩ := hcopied
  refine ⟨parameters, ids, by rw [hitem', hcopied], ?_⟩
  refine ((List.forall₂_and_left _ _).mpr ⟨hps, hparameters⟩).imp ?_
  rintro p q ⟨hp, hq⟩
  refine getElem?_withOverrides_of_ne hq fun info hpay => ?_
  have hpay : p.item.payload = .method info := hpay
  rw [Decl.asMethod?, hpay] at hp
  cases hp

/-! ## What classes list -/

/-- In `t` the class `c` lists, behind what it lists in `s`, copies of these methods and fields. They are
what the `hidden` classes leave to it: its superclasses up to the first one that is not hidden. -/
structure Exposed (s t : Surface) (c : Decl) (hidden methods fields : List Decl)
    (methodIds fieldIds : List ItemId) : Prop where
  chain : ∃ rest, (s.alone.superclassChain c).members = hidden ++ rest ∧
    (∀ above ∈ hidden, above.isEffectively .hidden = true) ∧
      ∀ above ∈ rest.head?, above.isEffectively .hidden = false
  listed : t.items[c.id.index]? = some (c.item.listing methodIds fieldIds)
  methodCopies : List.Forall₂ (HasCopy t.items c) methods methodIds
  fieldCopies : List.Forall₂ (HasCopy t.items c) fields fieldIds
  /-- The ids, and the ranks with them, are new and different. -/
  fresh : ∀ id ∈ methodIds ++ fieldIds, s.size ≤ id.index
  increasing : ∀ ids ∈ [methodIds, fieldIds], ids.Pairwise fun a b => a.index < b.index
  apart : ∀ id ∈ methodIds, id ∉ fieldIds
  /-- A copy says that it comes from what its member belongs to, and that is the superclass. -/
  provenance : ∀ above ∈ hidden, ∀ m, m ∈ above.methods ∨ m ∈ above.fields → m.item.parent = some above.id
  methods_sublist : methods.Sublist (hidden.flatMap Decl.methods)
  methods_inheritable : ∀ m ∈ methods, m.Inheritable
  /-- No method is left out but for an earlier one that it matches and that says the same. -/
  methods_complete : ∀ before m after, hidden.flatMap Decl.methods = before ++ m :: after → m.Inheritable →
    m ∈ methods ∨ ∃ e, (e ∈ c.methods ∨ e ∈ before ∧ e ∈ methods) ∧ e.signatureMatches m = true ∧
      e.sameSignature m true = true
  fields_inheritable : ∀ f ∈ fields, f.Inheritable
  /-- Of the fields of a new name the nearest is taken. -/
  fields_first : ∀ f ∈ fields, f.name ∉ c.fields.map Decl.name ∧
    ∃ before after, hidden.flatMap Decl.fields = before ++ f :: after ∧
      ∀ g ∈ before, g.Inheritable → g.name ≠ f.name
  fields_once : (fields.map Decl.name).Nodup
  fields_complete : ∀ f ∈ hidden.flatMap Decl.fields, f.Inheritable →
    f.name ∈ (c.fields ++ fields).map Decl.name

/-- `t` is `s` with the copies that its classes expose, and with overrides resolved. -/
structure Inherits (s t : Surface) : Prop where
  frame : t = { s with items := t.items }
  /-- The copies themselves change nothing but lists of classes. -/
  untouched : ∀ d, s.Declares d → d.asClass? = none →
    s.withInheritedCopies.items[d.id.index]? = some d.item
  others : ∀ d, s.Declares d → d.asClass? = none →
    ∃ overridden, t.items[d.id.index]? = some (noteIn overridden d.item)
  hidden : ∀ c, s.Declares c → c.asClass?.isSome → c.isEffectively .hidden = true →
    t.items[c.id.index]? = some c.item
  visible : ∀ c, s.Declares c → c.asClass?.isSome → c.isEffectively .hidden = false →
    ∃ hidden methods fields methodIds fieldIds, s.Exposed t c hidden methods fields methodIds fieldIds
  /-- Whatever is new is a copy that a class lists, or a parameter of one. -/
  nothingElse : ∀ i : Nat, s.size ≤ i → i < t.size → ∃ c id, s.Declares c ∧ c.asClass?.isSome ∧
    c.isEffectively .hidden = false ∧ s.size ≤ id.index ∧
    (id ∈ slotAt t.items .methods c.id.index ∨ id ∈ slotAt t.items .fields c.id.index) ∧
    (id = ⟨i⟩ ∨ ⟨i⟩ ∈ slotAt t.items .parameters id.index)

/-- What has been placed for a class are the members that it takes, in their order. -/
theorem Takes.forall₂_placesOf (hs : s.WellFormed) (h : Takes s items placed)
    (hplaced : placed.map (fun x => (x.owner, x.source)) = s.exposures) (hc : s.Declares c)
    (hclass : c.asClass?.isSome) (test : Decl → Bool) :
    List.Forall₂ (HasCopy items c) ((s.exposedBy c).filter test) (placesOf placed c test) := by
  have hpairs := filter_exposures hs hc hclass test
  rw [← hplaced, List.filter_map] at hpairs
  have hsources : (placed.filter fun x => x.owner.id == c.id && test x.source).map Placement.source =
      (s.exposedBy c).filter test := by
    have hsnd := congrArg (List.map Prod.snd) hpairs
    simpa only [List.map_map, Function.comp_def, List.map_id'] using hsnd
  rw [← hsources]
  refine List.forall₂_map_left_iff.mpr (List.forall₂_map_right_iff.mpr (List.forall₂_same.mpr ?_))
  intro x hx
  have howner : (x.owner, x.source) ∈ ((s.exposedBy c).filter test).map fun m => (c, m) :=
    hpairs ▸ List.mem_map_of_mem hx
  obtain ⟨m, _, heq⟩ := List.mem_map.mp howner
  obtain ⟨rfl, rfl⟩ := Prod.mk.inj heq
  exact (h.copies x (List.mem_of_mem_filter hx)).2

/-- No place is that of a method and of a field. -/
theorem Takes.placesOf_apart (h : Takes s items placed)
    (hid : id ∈ placesOf placed c fun m => m.asMethod?.isSome) :
    id ∉ placesOf placed c fun m => m.asField?.isSome := by
  intro hid'
  obtain ⟨x, hx, rfl⟩ := List.mem_map.mp hid
  obtain ⟨y, hy, hxy⟩ := List.mem_map.mp hid'
  obtain ⟨hx, hmethod⟩ := List.mem_filter.mp hx
  obtain ⟨hy, hfield⟩ := List.mem_filter.mp hy
  have hnodup : (placed.map Placement.id).Nodup :=
    h.increasing.imp fun hlt heq => Nat.ne_of_lt hlt (congrArg ItemId.index heq)
  obtain rfl := List.inj_on_of_nodup_map hnodup hx hy hxy.symm
  have hno := asField?_of_asMethod? (Bool.and_eq_true_iff.mp hmethod).2
  exact Bool.false_ne_true (hno.symm.trans (Bool.and_eq_true_iff.mp hfield).2)

theorem ne_method_of_class (h : c.asClass?.isSome) (info : MethodInfo) : c.item.payload ≠ .method info := by
  obtain ⟨classInfo, hinfo⟩ := Option.isSome_iff_exists.mp h
  rw [payload_of_asClass? hinfo]
  exact Payload.noConfusion

theorem asMethod?_of_parameter (hs : s.WellFormed) (hm : s.Declares m) (hp : p ∈ m.parameters) :
    p.asMethod? = none := by
  rw [Decl.parameters_eq] at hp
  obtain ⟨info, hpay⟩ := payload_of_parameter hs hm hp
  rw [Decl.asMethod?, hpay]

/-- The copies of a class after overrides have been resolved. -/
theorem forall₂_withOverrides (hs : s.WellFormed) {t : Surface} {methods : List Decl} {ids : List ItemId}
    (hmethods : ∀ m ∈ methods, s.Declares m) (h : List.Forall₂ (HasCopy t.items c) methods ids) :
    List.Forall₂ (HasCopy t.withOverrides.items c) methods ids := by
  refine ((List.forall₂_and_left _ _).mpr ⟨hmethods, h⟩).imp ?_
  rintro m id ⟨hm, hcopy⟩
  exact hasCopy_withOverrides hcopy fun p => asMethod?_of_parameter hs hm

/-- The item of a class when all copies are there. -/
theorem Takes.getElem?_class (h : Takes s s.withInheritedCopies.items placed) (hc : s.Declares c)
    (hclass : c.asClass?.isSome) :
    s.withInheritedCopies.withOverrides.items[c.id.index]? = some (c.item.listing
      (placesOf placed c fun m => m.asMethod?.isSome) (placesOf placed c fun m => m.asField?.isSome)) :=
  getElem?_withOverrides_of_ne (h.old c hc) (Item.listing_ne_method (ne_method_of_class hclass))

theorem Takes.exposed (hs : s.WellFormed) (h : Takes s s.withInheritedCopies.items placed)
    (hplaced : placed.map (fun x => (x.owner, x.source)) = s.exposures) (hc : s.Declares c)
    (hclass : c.asClass?.isSome) (hvisible : c.isEffectively .hidden = false) :
    s.Exposed s.withInheritedCopies.withOverrides c (s.hiddenSuperclasses c)
      (newMethods c.methods (s.hiddenMethods c)) (newFields (c.fields.map Decl.name) (s.hiddenFields c))
      (placesOf placed c fun m => m.asMethod?.isSome) (placesOf placed c fun m => m.asField?.isSome) := by
  have hcopies (test : Decl → Bool) : List.Forall₂
      (HasCopy s.withInheritedCopies.withOverrides.items c) ((s.exposedBy c).filter test)
        (placesOf placed c test) :=
    forall₂_withOverrides hs
      (fun m hm => declares_of_mem_exposedBy hs hc (List.mem_of_mem_filter hm))
      (h.forall₂_placesOf hs hplaced hc hclass test)
  have hplace : ∀ test, ∀ id ∈ placesOf placed c test, s.size ≤ id.index := by
    intro test id hid
    obtain ⟨x, hx, rfl⟩ := List.mem_map.mp hid
    exact (h.copies x (List.mem_of_mem_filter hx)).1
  have hincreasing : ∀ test, (placesOf placed c test).Pairwise fun a b => a.index < b.index :=
    fun _ => h.increasing.sublist (List.filter_sublist.map _)
  have hnames := newFields_names (c.fields.map Decl.name) (s.hiddenFields c)
  exact
    { chain := exists_hiddenSuperclasses_append s c
      listed := h.getElem?_class hc hclass
      methodCopies := filter_asMethod?_exposedBy hs hc hvisible ▸ hcopies _
      fieldCopies := filter_asField?_exposedBy hs hc hvisible ▸ hcopies _
      fresh := fun id hid => (List.mem_append.mp hid).elim (hplace _ id) (hplace _ id)
      increasing := List.forall_mem_cons.mpr
        ⟨hincreasing _, List.forall_mem_singleton.mpr (hincreasing _)⟩
      apart := fun id => h.placesOf_apart
      provenance := fun above habove m =>
        parent_of_mem_methods_or_fields hs (declares_of_mem_hiddenSuperclasses hs hc habove)
      methods_sublist := newMethods_sublist _ _
      methods_inheritable := fun m hm => isInheritable_iff.mp (isInheritable_of_mem_newMethods hm)
      methods_complete := fun before m after hsplit hm =>
        newMethods_complete hsplit (isInheritable_iff.mpr hm)
      fields_inheritable := fun f hf => isInheritable_iff.mp (isInheritable_of_mem_newFields hf)
      fields_first := fun f hf => exists_split_of_mem_newFields hf
      fields_once := hnames.1
      fields_complete := fun f hf hin => by
        rw [List.map_append, List.mem_append]
        exact newFields_complete hf (isInheritable_iff.mpr hin) }

/-- Every new item has been placed. -/
theorem Takes.nothingElse (hs : s.WellFormed) (h : Takes s s.withInheritedCopies.items placed)
    (hplaced : placed.map (fun x => (x.owner, x.source)) = s.exposures) {i : Nat} (hle : s.size ≤ i)
    (hi : i < s.withInheritedCopies.withOverrides.size) : ∃ c id, s.Declares c ∧ c.asClass?.isSome ∧
      c.isEffectively .hidden = false ∧ s.size ≤ id.index ∧
      (id ∈ slotAt s.withInheritedCopies.withOverrides.items .methods c.id.index ∨
        id ∈ slotAt s.withInheritedCopies.withOverrides.items .fields c.id.index) ∧
      (id = ⟨i⟩ ∨ ⟨i⟩ ∈ slotAt s.withInheritedCopies.withOverrides.items .parameters id.index) := by
  have hsize : i < s.withInheritedCopies.items.size := by rwa [← size_withOverrides]
  obtain ⟨x, hx, hat⟩ := h.covered i hle hsize
  have hpair : (x.owner, x.source) ∈ s.exposures := hplaced ▸ List.mem_map_of_mem hx
  obtain ⟨hc, hclass, hm⟩ := mem_exposures hs hpair
  obtain ⟨hfresh, _, _, hitem, _⟩ := h.copies x hx
  have hmem : ∀ test : Decl → Bool, test x.source = true → x.id ∈ placesOf placed x.owner test :=
    fun test htest => List.mem_map.mpr ⟨x, List.mem_filter.mpr ⟨hx, by simp [htest]⟩, rfl⟩
  have hlisted := h.getElem?_class hc hclass
  refine ⟨x.owner, x.id, hc, hclass, (mem_exposedBy hm).1, hfresh, ?_, hat.imp_right fun hat => ?_⟩
  · rw [slotAt_of_getElem? hlisted, slotAt_of_getElem? hlisted, (Item.slot_listing hclass).1,
      (Item.slot_listing hclass).2]
    refine (h.sources x hx).2.imp (fun hrole => ?_) fun hrole => ?_
    · exact List.mem_append_right _ (hmem _ (x.source.isSome_asMethod?.mpr (.inl hrole)))
    · exact List.mem_append_right _ (hmem _ (x.source.isSome_asField?.mpr hrole))
  · obtain ⟨overridden, hitem'⟩ := exists_getElem?_withOverrides hitem
    rw [slotAt_of_getElem? hitem] at hat
    rw [slotAt_of_getElem? hitem']
    rcases exists_noteIn overridden _ with heq | ⟨info, hp, heq⟩
    · rwa [heq]
    · rw [hp] at hat
      rwa [heq]

/-- A well-formed surface and what becomes of it when its classes list what they inherit. -/
theorem inherits_withOverrides (hs : s.WellFormed) : s.Inherits s.withInheritedCopies.withOverrides := by
  obtain ⟨placed, hplaced, h⟩ := exists_takes hs
  exact
    { frame := rfl
      untouched := fun d hd => h.getElem?_of_ne hd
      others := fun d hd hclass => exists_getElem?_withOverrides (h.getElem?_of_ne hd hclass)
      hidden := fun c hc hclass hhidden => by
        have hnone : ∀ test, placesOf placed c test = [] := by
          intro test
          have hcopies := h.forall₂_placesOf hs hplaced hc hclass test
          rw [exposedBy_of_hidden hhidden, List.filter_nil] at hcopies
          exact List.forall₂_nil_left_iff.mp hcopies
        rw [h.getElem?_class hc hclass, hnone, hnone, Item.listing_nil]
      visible := fun c hc hclass hvisible => ⟨_, _, _, _, _, h.exposed hs hplaced hc hclass hvisible⟩
      nothingElse := fun i => h.nothingElse hs hplaced }

end Surface

/-- Whatever calls made a draft, its surface is what the draft holds, with the members that classes inherit
from hidden superclasses: every class that is not hidden lists all that can be inherited, each as a copy,
hidden classes list none, and nothing else comes about or changes. -/
theorem Recipe.draft_inherits (r : Recipe) (location : String) :
    (r.draft location).toSurface.Inherits (r.draft location).finish :=
  inherits_withOverrides (Arena.WellFormed.map (r.draft_wellFormed location) steady_canonicalItem)

end ApiSurface
