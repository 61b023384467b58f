import ApiSurface.Proofs.EffectiveFlags
import ApiSurface.Proofs.LoadedSurfaces

/-! # Surfaces that say the same

A recipe declares what its calls say, whatever the label of the surface and whatever flags are changed in
the end. Surfaces of the same calls hold the same declarations at the same places: these are declared in
one another alike, and differ in no name, type or type parameter. -/
namespace ApiSurface

open Arena Surface

/-- Two surfaces built from the same specs. Either may be labelled as partial, and own flags may have been
changed since. -/
inductive SameSpecs : Surface → Surface → Prop where
  | intro (r r' : Recipe) (h : r'.calls = r.calls) (serial serial' : Nat) (location location' : String) :
      SameSpecs (r.build serial location) (r'.build serial' location')

/-- What the specs say of the item: what it is declared in, and its payload without the lists that may still
change. -/
def Item.gist (item : Item) : Option ItemId × Payload := (item.parent, item.payload.core)

namespace Payload

/-- What does not depend on the lists that may still change is the same for payloads that differ in no more
than that. -/
theorem observe {α : Type} {f : Payload → α} {payload payload' : Payload}
    (hf : ∀ payload : Payload, f payload.core = f payload) (h : payload'.core = payload.core) :
    f payload' = f payload := by
  rw [← hf payload', h, hf]

end Payload

namespace Surface

/-- The declarations say the same as far as the loose test reads it, but for the labels. -/
structure Alike (d d' : Decl) : Prop where
  isSome_asMethod? : d'.asMethod?.isSome = d.asMethod?.isSome
  name : d'.name = d.name
  parameterTypes : d'.parameterTypes = d.parameterTypes
  typeScope : d'.typeScope = d.typeScope

namespace Alike

variable {a b d d' d'' a' b' : Decl}

theorem symm (h : Alike d d') : Alike d' d :=
  ⟨h.isSome_asMethod?.symm, h.name.symm, h.parameterTypes.symm, h.typeScope.symm⟩

theorem trans (h : Alike d d') (h' : Alike d' d'') : Alike d d'' :=
  ⟨h'.isSome_asMethod?.trans h.isSome_asMethod?, h'.name.trans h.name,
    h'.parameterTypes.trans h.parameterTypes, h'.typeScope.trans h.typeScope⟩

/-- Versions of methods that match do so if they have all labels that the methods have. -/
theorem signatureMatches (ha : Alike a a') (hb : Alike b b')
    (hpa : a.surface.isPartial → a'.surface.isPartial) (hpb : b.surface.isPartial → b'.surface.isPartial)
    (h : a.signatureMatches b = true) : a'.signatureMatches b' = true := by
  obtain ⟨hma, hmb, hname, htypes⟩ := Decl.signatureMatches_iff.mp h
  rw [Decl.signatureMatches_iff, ha.isSome_asMethod?, hb.isSome_asMethod?, ha.name, hb.name,
    ha.parameterTypes, hb.parameterTypes]
  exact ⟨hma, hmb, hname, htypes.imp fun _ _ =>
    Decl.parameterAgrees_mono ha.typeScope hb.typeScope hpa hpb⟩

/-- A method matches its versions, because they take the same types in the same scope. -/
theorem signatureMatches_self (h : Alike a a') (ha : a.asMethod?.isSome) :
    a.signatureMatches a' = true := by
  rw [Decl.signatureMatches_iff, h.isSome_asMethod?, h.name, h.parameterTypes]
  refine ⟨ha, ha, rfl, List.forall₂_same.mpr fun t _ => ?_⟩
  simp [Decl.parameterAgrees]

/-- Under the same labels the loose test does not tell versions of methods apart. -/
theorem signatureMatches_eq (ha : Alike a a') (hb : Alike b b')
    (hpa : a'.surface.isPartial = a.surface.isPartial) (hpb : b'.surface.isPartial = b.surface.isPartial) :
    a'.signatureMatches b' = a.signatureMatches b := by
  rw [Bool.eq_iff_iff]
  exact ⟨ha.symm.signatureMatches hb.symm (hpa ▸ ·) (hpb ▸ ·), ha.signatureMatches hb (hpa ▸ ·) (hpb ▸ ·)⟩

end Alike

/-- `s'` has the items of `s` first, with the same gist. Labels and flags do not count. -/
structure Restates (s s' : Surface) : Prop where
  left : s.WellFormed
  right : s'.WellFormed
  item : ∀ (i : Nat) (item : Item), s.items[i]? = some item →
    ∃ item' : Item, s'.items[i]? = some item' ∧ item'.gist = item.gist

variable {s s' : Surface} {d d' : Decl}

theorem Keeps.restates (h : s.Keeps s') : s.Restates s' where
  left := h.left
  right := h.right
  item i item hi := by
    obtain ⟨item', hi', hcore⟩ := h.item i item hi
    exact ⟨item', hi', (congrArg (fun item : Item => (item.parent, item.payload)) hcore :)⟩

namespace Restates

theorem trans {s'' : Surface} (h : s.Restates s') (h' : s'.Restates s'') : s.Restates s'' where
  left := h.left
  right := h'.right
  item i item hi := by
    obtain ⟨item', hi', hgist⟩ := h.item i item hi
    obtain ⟨item'', hi'', hgist'⟩ := h'.item i item' hi'
    exact ⟨item'', hi'', hgist'.trans hgist⟩

/-- A change of a flag is no change of what the specs say. -/
theorem change (h : s.Restates s') (change : FlagChange) : s.Restates (s'.change change) where
  left := h.left
  right := change_wellFormed h.right change
  item i item hi := by
    obtain ⟨item', hi', hgist⟩ := h.item i item hi
    rw [change_eq, Array.getElem?_modify, hi']
    split
    · exact ⟨_, rfl, hgist⟩
    · exact ⟨item', rfl, hgist⟩

theorem changes (h : s.Restates s') (changes : List FlagChange) :
    s.Restates (changes.foldl Surface.change s') := by
  induction changes generalizing s' with
  | nil => exact h
  | cons change rest ih => exact ih (h.change change)

/-! ## The declarations at one place -/

theorem exists_declares (h : s.Restates s') (hd : s.Declares d) : ∃ d', s'.Declares d' ∧ d'.id = d.id := by
  obtain ⟨item', hi', _⟩ := h.item d.id.index d.item hd.getElem?
  refine ⟨⟨s', d.id, item'⟩, ?_, rfl⟩
  rw [Declares, decl?, hi']
  rfl

theorem gist (h : s.Restates s') (hd : s.Declares d) (hd' : s'.Declares d') (hid : d'.id = d.id) :
    d'.item.gist = d.item.gist := by
  obtain ⟨item', hi', hgist⟩ := h.item d.id.index d.item hd.getElem?
  rw [← hid, hd'.getElem?, Option.some.injEq] at hi'
  rw [hi', hgist]

theorem observe {α : Type} {f : Payload → α} (h : s.Restates s') (hd : s.Declares d)
    (hd' : s'.Declares d') (hid : d'.id = d.id) (hf : ∀ payload : Payload, f payload.core = f payload) :
    f d'.item.payload = f d.item.payload :=
  Payload.observe hf (congrArg Prod.snd (h.gist hd hd' hid))

theorem isInherited (h : s.Restates s') (hd : s.Declares d) (hd' : s'.Declares d') (hid : d'.id = d.id) :
    d'.isInherited = d.isInherited :=
  h.observe (f := Payload.isInherited) hd hd' hid fun payload => by cases payload <;> rfl

theorem name (h : s.Restates s') (hd : s.Declares d) (hd' : s'.Declares d') (hid : d'.id = d.id) :
    d'.name = d.name :=
  h.observe (f := Payload.name) hd hd' hid fun payload => by cases payload <;> rfl

theorem label (h : s.Restates s') (hd : s.Declares d) (hd' : s'.Declares d') (hid : d'.id = d.id) :
    d'.item.payload.label = d.item.payload.label :=
  h.observe (f := Payload.label) hd hd' hid fun payload => by cases payload <;> rfl

theorem isSome_asMethod? (h : s.Restates s') (hd : s.Declares d) (hd' : s'.Declares d')
    (hid : d'.id = d.id) : d'.asMethod?.isSome = d.asMethod?.isSome := by
  have hlabel := h.label hd hd' hid
  unfold Decl.asMethod?
  cases hp : d.item.payload <;> cases hp' : d'.item.payload <;> rw [hp, hp'] at hlabel <;>
    first | rfl | simp [Payload.label] at hlabel

theorem ownTypeParameters (h : s.Restates s') (hd : s.Declares d) (hd' : s'.Declares d')
    (hid : d'.id = d.id) : d'.ownTypeParameters = d.ownTypeParameters := by
  refine h.observe (f := fun payload => (Decl.mk s ⟨0⟩ { d.item with payload }).ownTypeParameters) hd hd'
    hid fun payload => ?_
  cases payload <;> rfl

theorem parameterTypes (h : s.Restates s') (hd : s.Declares d) (hd' : s'.Declares d')
    (hid : d'.id = d.id) : d'.parameterTypes = d.parameterTypes := by
  have hslot := h.observe (f := fun payload => payload.slot .parameters) hd hd' hid fun payload => by
    cases payload <;> rfl
  rw [parameterTypes_eq hd, parameterTypes_eq hd', hslot]
  refine List.filterMap_congr fun id hid => ?_
  obtain ⟨k, hk⟩ := List.mem_iff_getElem?.mp hid
  obtain ⟨p, hp, _⟩ := hd.position_eq h.left hk
  obtain ⟨item', hi', hgist⟩ := h.item id.index p.item (decl?_eq_some hp).2.2
  have htype : item'.parameterType? = p.item.parameterType? :=
    Payload.observe (f := fun payload => ({ p.item with payload } : Item).parameterType?)
      (fun payload => by cases payload <;> rfl) (congrArg Prod.snd hgist)
  rw [hi', (decl?_eq_some hp).2.2, Option.bind_some, Option.bind_some, htype]

theorem parent? (h : s.Restates s') (hd : s.Declares d) (hd' : s'.Declares d') (hid : d'.id = d.id) :
    Option.Rel (s.Peers s') d.parent? d'.parent? := by
  have hparent : d'.item.parent = d.item.parent := congrArg Prod.fst (h.gist hd hd' hid)
  rcases hd.parent_cases h.left with ⟨_, hnone⟩ | ⟨p, hdp, hp, _⟩
  · rw [Decl.parent?, Decl.parent?, hparent, hnone]
    exact .none
  · obtain ⟨p', hdp', hpid⟩ := h.exists_declares hdp
    rw [hd.parent?_eq hdp hp, hd'.parent?_eq hdp' (by rw [hparent, hp, hpid])]
    exact .some ⟨hdp, hdp', hpid⟩

/-- What declarations at one place are declared in are declarations at one place. -/
theorem outward (h : s.Restates s') : Decl.Outward (s.Peers s') where
  left hd := hd.left.inPlace h.left
  right hd := hd.right.inPlace h.right
  label hd := h.label hd.left hd.right hd.id
  parent? hd := h.parent? hd.left hd.right hd.id

theorem typeScope (h : s.Restates s') (hd : s.Declares d) (hd' : s'.Declares d') (hid : d'.id = d.id) :
    d'.typeScope = d.typeScope :=
  h.outward.typeScope_eq (fun hd => h.ownTypeParameters hd.left hd.right hd.id) ⟨hd, hd', hid⟩

/-- Declarations at one place are versions of one declaration. -/
theorem alikeAt (h : s.Restates s') (hd : s.Declares d) (hd' : s'.Declares d') (hid : d'.id = d.id) :
    Alike d d' :=
  ⟨h.isSome_asMethod? hd hd' hid, h.name hd hd' hid, h.parameterTypes hd hd' hid, h.typeScope hd hd' hid⟩

end Restates

end Surface

/-! ## What recipes declare -/

namespace Draft

theorem toSurface_labelled_restates {d : Draft} (h : d.WellFormed) (location : String) (isPartial : Bool) :
    d.toSurface.Restates (d.labelled location isPartial).toSurface where
  left := toSurface_wellFormed h
  right := toSurface_wellFormed h
  item _ item hi := ⟨item, hi, rfl⟩

end Draft

namespace Recipe

variable (r : Recipe) (serial : Nat) (location : String)

theorem toSurface_wellFormed : (r.draft location).toSurface.WellFormed :=
  Draft.toSurface_wellFormed (r.draft_wellFormed location)

theorem completed_restates_build : (r.draft location).toSurface.completed.Restates (r.build serial location) := by
  have hs := (completed_keeps (r.toSurface_wellFormed location)).right
  have hserial : (r.draft location).toSurface.completed.Restates
      { (r.draft location).finish with serial } := ⟨hs, hs, fun _ item hi => ⟨item, hi, rfl⟩⟩
  exact hserial.changes r.changes

theorem draft_restates_build : (r.draft location).toSurface.Restates (r.build serial location) :=
  (completed_keeps (r.toSurface_wellFormed location)).restates.trans (r.completed_restates_build serial location)

/-- A draft is restated by every surface that is built by the same calls. -/
theorem draft_restates_of_calls {r' : Recipe} (hcalls : r'.calls = r.calls) (serial' : Nat)
    (location' : String) : (r.draft location).toSurface.Restates (r'.build serial' location') := by
  have hlabelled := Draft.toSurface_labelled_restates (r.draft_wellFormed location) location' r'.isPartial
  rw [← r.draft_labelled hcalls location location'] at hlabelled
  exact hlabelled.trans (r'.draft_restates_build serial' location')

/-- Changes of flags add nothing. -/
theorem exists_completed {m : Decl} (hm : (r.build serial location).Declares m) :
    ∃ x, (r.draft location).toSurface.completed.Declares x ∧ x.id = m.id := by
  have hsize : (r.build serial location).size = (r.draft location).toSurface.completed.size :=
    size_foldl_change r.changes
  have hlt : m.id.index < (r.draft location).toSurface.completed.size :=
    hsize ▸ (Array.getElem?_eq_some_iff.mp hm.getElem?).1
  exact ⟨_, declares_of_getElem? (Array.getElem?_eq_getElem hlt), rfl⟩

/-- What is declared, and not inherited, stands among the items of the draft. -/
theorem lt_of_declared {m : Decl} (hm : (r.build serial location).Declares m) (hmethod : m.asMethod?.isSome)
    (hown : m.isInherited = false) : m.id.index < (r.draft location).toSurface.size := by
  have hs := r.toSurface_wellFormed location
  have h := r.completed_restates_build serial location
  obtain ⟨x, hx, hid⟩ := r.exists_completed serial location hm
  by_contra hle
  rw [← hid] at hle
  rcases completed_copiesBehind hs _ hx (Nat.le_of_not_lt hle) with hin | ⟨c, hc, hparent, hin⟩
  · rw [← h.isInherited hx hm hid.symm, hown] at hin
    cases hin
  · obtain ⟨c', hc', hclass, hparent'⟩ :=
      hx.class_of_method h.left ((h.isSome_asMethod? hx hm hid.symm).symm.trans hmethod)
    rw [hparent', Option.some.injEq] at hparent
    obtain rfl := hc'.eq_of_id hc hparent
    obtain ⟨info, hinfo⟩ := Option.isSome_iff_exists.mp hclass
    rw [Decl.isInherited, payload_of_asClass? hinfo] at hin
    cases hin

end Recipe

/-- A declared method comes from a draft whose items both surfaces restate. -/
theorem SameSpecs.exists_source {s s' : Surface} (h : SameSpecs s s') : ∃ u : Surface, u.Restates s ∧
    u.Restates s' ∧ ∀ m, s.Declares m → m.asMethod?.isSome → m.isInherited = false → m.id.index < u.size := by
  obtain ⟨r, r', hcalls, serial, serial', location, location'⟩ := h
  exact ⟨(r.draft location).toSurface, r.draft_restates_build serial location,
    r.draft_restates_of_calls location hcalls serial' location', fun m hm =>
      r.lt_of_declared serial location hm⟩

end ApiSurface
