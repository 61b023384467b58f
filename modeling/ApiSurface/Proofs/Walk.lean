import ApiSurface.Proofs.Declarations
import ApiSurface.Proofs.Pairing

/-! # The walk of a comparison

Which declarations the events of a comparison are about. The walk goes by packages, by classes, by
constructors, methods and fields, and by methods, and at each level the events are about declarations
that belong to different ones. So no declaration is met twice on one side. -/
namespace ApiSurface

open Arena Surface

/-- The two surfaces of a comparison. -/
inductive Side where
  | old
  | new

def Side.pick {α : Type} (side : Side) (old new : α) : α :=
  match side with
  | .old => old
  | .new => new

namespace Event

def on (side : Side) : Event → Option Decl
  | .matched o n => some (side.pick o n)
  | .removed o _ => side.pick (some o) none
  | .added n => side.pick none (some n)

def Apart (side : Side) (e f : Event) : Prop :=
  ∀ x y, e.on side = some x → f.on side = some y → x.id ≠ y.id

/-- What the event is about on a side is a declaration of the surface and has this tag. -/
def Tagged {γ : Type} (side : Side) (s : Surface) (tag : Decl → γ) (value : γ) (e : Event) : Prop :=
  ∀ x, e.on side = some x → s.Declares x ∧ tag x = value

variable {side : Side} {e f : Event}

theorem Apart.symm (h : Apart side e f) : Apart side f e :=
  fun x y hx hy he => h y x hy hx he.symm

instance : Std.Symm (Apart side) := ⟨fun _ _ => Apart.symm⟩

/-- Events with different tags are about different declarations. -/
theorem Tagged.apart {γ : Type} {s : Surface} {tag : Decl → γ} {a b : γ} (he : Tagged side s tag a e)
    (hf : Tagged side s tag b f) (hne : a ≠ b) : Apart side e f := by
  intro x y hx hy hid
  obtain ⟨hdx, htx⟩ := he x hx
  obtain ⟨hdy, hty⟩ := hf y hy
  have hxy := hdx.eq_of_id hdy hid
  rw [hxy, hty] at htx
  exact hne htx.symm

/-- Blocks of events that are apart inside and carry different tags are apart. -/
theorem pairwise_apart_flatMap {ι γ : Type} (s : Surface) (tag : Decl → γ) (value : ι → γ)
    {l : List ι} {block : ι → List Event} (hl : l.Pairwise fun a b => value a ≠ value b)
    (hin : ∀ a ∈ l, (block a).Pairwise (Apart side))
    (htag : ∀ a ∈ l, ∀ e ∈ block a, Tagged side s tag (value a) e) :
    (l.flatMap block).Pairwise (Apart side) := by
  refine List.pairwise_flatMap.mpr ⟨hin, hl.imp_of_mem ?_⟩
  intro a b ha hb hne x hx y hy
  exact (htag a ha x hx).apart (htag b hb y hy) hne

theorem pairwise_toList {r : Event → Event → Prop} (e : Option Event) : e.toList.Pairwise r := by
  cases e with
  | none => exact .nil
  | some e => exact List.pairwise_singleton _ _

end Event

namespace Comparison

open Event

variable {side : Side} {s t : Surface} {filter : Filter} {c d p q : Decl} {slot : Slot} {role : Role}
  {e : Event}

/-! ## Constructors and methods -/

def IsParameterPair (o n : Decl) (e : Event) : Prop :=
  ∃ x y, (x, y) ∈ o.parameters.zip n.parameters ∧ e = .matched x y

theorem mem_events_both {newClass o n : Decl} :
    e ∈ (Pairing.both o n).events newClass ↔ e = .matched o n ∨ IsParameterPair o n e := by
  unfold Pairing.events IsParameterPair
  rw [List.mem_cons, List.mem_map]
  constructor
  · rintro (h | ⟨⟨x, y⟩, hm, rfl⟩)
    · exact .inl h
    · exact .inr ⟨x, y, hm, rfl⟩
  · rintro (h | ⟨x, y, hm, rfl⟩)
    · exact .inl h
    · exact .inr ⟨(x, y), hm, rfl⟩

theorem added_mem_events {newClass n : Decl} {pairing : Pairing} :
    Event.added n ∈ pairing.events newClass ↔ pairing = .newOnly n := by
  refine ⟨fun h => ?_, fun h => h ▸ List.mem_singleton.mpr rfl⟩
  cases pairing with
  | both a b => rcases mem_events_both.mp h with heq | ⟨_, _, _, heq⟩ <;> cases heq
  | oldOnly a => cases List.mem_singleton.mp h
  | newOnly b => cases List.mem_singleton.mp h; rfl

theorem removed_mem_events {newClass o : Decl} {place : Option Decl} {pairing : Pairing} :
    Event.removed o place ∈ pairing.events newClass ↔ pairing = .oldOnly o ∧ place = some newClass := by
  constructor
  · intro h
    cases pairing with
    | both a b => rcases mem_events_both.mp h with heq | ⟨_, _, _, heq⟩ <;> cases heq
    | oldOnly a => cases List.mem_singleton.mp h; exact ⟨rfl, rfl⟩
    | newOnly b => cases List.mem_singleton.mp h
  · rintro ⟨rfl, rfl⟩
    exact List.mem_singleton.mpr rfl

theorem mem_methodEvents {newClass : Decl} {old new : List Decl} :
    e ∈ methodEvents newClass old new ↔
      ∃ pair ∈ pairUp (sortedByKey old) (sortedByKey new), e ∈ pair.2.events newClass := by
  unfold methodEvents
  rw [List.mem_flatMap]
  simp only [List.mem_mergeSort]

theorem added_mem_methodEvents {newClass n : Decl} {old new : List Decl} :
    Event.added n ∈ methodEvents newClass old new ↔
      ∃ key, (key, .newOnly n) ∈ pairUp (sortedByKey old) (sortedByKey new) := by
  rw [mem_methodEvents]
  constructor
  · rintro ⟨⟨key, pairing⟩, hp, he⟩
    obtain rfl := added_mem_events.mp he
    exact ⟨key, hp⟩
  · rintro ⟨key, hp⟩
    exact ⟨_, hp, added_mem_events.mpr rfl⟩

theorem removed_mem_methodEvents {newClass o : Decl} {place : Option Decl} {old new : List Decl} :
    Event.removed o place ∈ methodEvents newClass old new ↔ place = some newClass ∧
      ∃ key, (key, .oldOnly o) ∈ pairUp (sortedByKey old) (sortedByKey new) := by
  rw [mem_methodEvents]
  constructor
  · rintro ⟨⟨key, pairing⟩, hp, he⟩
    obtain ⟨rfl, hplace⟩ := removed_mem_events.mp he
    exact ⟨hplace, key, hp⟩
  · rintro ⟨hplace, key, hp⟩
    exact ⟨_, hp, removed_mem_events.mpr ⟨rfl, hplace⟩⟩

/-- What the events of methods are. -/
theorem methodEvents_cases {newClass : Decl} {old new : List Decl}
    (h : e ∈ methodEvents newClass old new) :
    (∃ o ∈ old, ∃ n ∈ new, o.signatureMatches n = true ∧ (e = .matched o n ∨ IsParameterPair o n e)) ∨
      (∃ o ∈ old, e = .removed o (some newClass)) ∨ ∃ n ∈ new, e = .added n := by
  obtain ⟨⟨key, pairing⟩, hp, he⟩ := mem_methodEvents.mp h
  have hm := mem_pairUp hp
  cases pairing with
  | both o n =>
    obtain ⟨ho, hn, hmatch⟩ := hm
    exact .inl ⟨o, mem_map_decl_sortedByKey.mp ho, n, mem_map_decl_sortedByKey.mp hn, hmatch,
      mem_events_both.mp he⟩
  | oldOnly o => exact .inr (.inl ⟨o, mem_map_decl_sortedByKey.mp hm, List.mem_singleton.mp he⟩)
  | newOnly n => exact .inr (.inr ⟨n, mem_map_decl_sortedByKey.mp hm, List.mem_singleton.mp he⟩)

/-- Every old method is matched or removed. -/
theorem exists_event_of_old (newClass : Decl) {old : List Decl} (new : List Decl) {o : Decl}
    (h : o ∈ old) :
    (∃ n ∈ new, o.signatureMatches n = true ∧ Event.matched o n ∈ methodEvents newClass old new) ∨
      Event.removed o (some newClass) ∈ methodEvents newClass old new := by
  obtain ⟨key, ⟨n, hp⟩ | hp⟩ := exists_old_pairUp (sortedByKey new)
    (mem_map_decl_sortedByKey.mpr h)
  · obtain ⟨_, hn, hmatch⟩ := mem_pairUp hp
    exact .inl ⟨n, mem_map_decl_sortedByKey.mp hn, hmatch,
      mem_methodEvents.mpr ⟨_, hp, mem_events_both.mpr (.inl rfl)⟩⟩
  · exact .inr (mem_methodEvents.mpr ⟨_, hp, List.mem_singleton.mpr rfl⟩)

/-- Every new method is matched or added. -/
theorem exists_event_of_new (newClass : Decl) (old : List Decl) {new : List Decl} {n : Decl}
    (h : n ∈ new) :
    (∃ o ∈ old, Event.matched o n ∈ methodEvents newClass old new) ∨
      Event.added n ∈ methodEvents newClass old new := by
  obtain ⟨key, ⟨o, hp⟩ | hp⟩ := exists_new_pairUp (sortedByKey old)
    (mem_map_decl_sortedByKey.mpr h)
  · obtain ⟨ho, _, _⟩ := mem_pairUp hp
    exact .inl ⟨o, mem_map_decl_sortedByKey.mp ho,
      mem_methodEvents.mpr ⟨_, hp, mem_events_both.mpr (.inl rfl)⟩⟩
  · exact .inr (mem_methodEvents.mpr ⟨_, hp, List.mem_singleton.mpr rfl⟩)

/-- No removed method matches an added one. -/
theorem methodEvents_maximal {newClass : Decl} {old new : List Decl} {o n : Decl}
    {place : Option Decl} (ho : Event.removed o place ∈ methodEvents newClass old new)
    (hn : Event.added n ∈ methodEvents newClass old new) : o.signatureMatches n = false := by
  obtain ⟨_, _, hp⟩ := removed_mem_methodEvents.mp ho
  obtain ⟨_, hp'⟩ := added_mem_methodEvents.mp hn
  exact pairUp_maximal hp hp'

/-- A member of a class or a parameter of it, with all that tells where it belongs. -/
theorem belongs_of_member (hs : s.WellFormed) (hc : s.Declares c) (hslot : MemberRole role slot)
    {m x : Decl} (hm : m ∈ c.members slot) (hx : x = m ∨ x ∈ m.members .parameters) :
    s.Declares x ∧ x.homeClass? = some c ∧ x.homeSlot? = some slot ∧ x.bearer? = some m.id := by
  have hd := ((mem_members hs hc).mp hm).1
  rcases hx with rfl | hx
  · exact ⟨hd, homeClass?_of_member hs hc hslot hm, homeSlot?_of_member hs hc hslot hm,
      bearer?_of_member hs hc hslot hm⟩
  · exact ⟨((mem_members hs hd).mp hx).1, homeClass?_of_parameter hs hc hslot hm hx,
      homeSlot?_of_parameter hs hc hslot hm hx, bearer?_of_parameter hs hd hx⟩

theorem on_events {newClass : Decl} {pairing : Pairing} {x : Decl} (h : e ∈ pairing.events newClass)
    (hx : e.on side = some x) :
    ∃ m, side.pick pairing.old? pairing.new? = some m ∧ (x = m ∨ x ∈ m.members .parameters) := by
  cases pairing with
  | both o n =>
    rcases mem_events_both.mp h with rfl | ⟨y, z, hyz, rfl⟩
    · cases side <;> cases hx <;> exact ⟨_, rfl, .inl rfl⟩
    · rw [Decl.parameters_eq, Decl.parameters_eq] at hyz
      obtain ⟨hy, hz⟩ := List.of_mem_zip hyz
      cases side <;> cases hx
      · exact ⟨o, rfl, .inr hy⟩
      · exact ⟨n, rfl, .inr hz⟩
  | oldOnly o =>
    cases List.mem_singleton.mp h
    cases side <;> cases hx
    exact ⟨_, rfl, .inl rfl⟩
  | newOnly n =>
    cases List.mem_singleton.mp h
    cases side <;> cases hx
    exact ⟨_, rfl, .inl rfl⟩

theorem pairwise_zip_left {α β : Type} {R : α → α → Prop} {as : List α} (bs : List β)
    (h : as.Pairwise R) : (as.zip bs).Pairwise fun x y => R x.1 y.1 := by
  induction as generalizing bs with
  | nil => exact .nil
  | cons a as ih =>
    cases bs with
    | nil => exact .nil
    | cons b bs =>
      obtain ⟨ha, has⟩ := List.pairwise_cons.mp h
      refine List.pairwise_cons.mpr ⟨?_, ih bs has⟩
      rintro ⟨x, y⟩ hxy
      exact ha x (List.of_mem_zip hxy).1

theorem pairwise_zip_right {α β : Type} {R : β → β → Prop} (as : List α) {bs : List β}
    (h : bs.Pairwise R) : (as.zip bs).Pairwise fun x y => R x.2 y.2 := by
  rw [← List.zip_swap, List.pairwise_map]
  exact pairwise_zip_left as h

/-- The surface and the declaration on one side of a comparison of two declarations. -/
structure PairSide (side : Side) (s t : Surface) (c d : Decl) : Prop where
  wellFormed : (side.pick s t).WellFormed
  declares : (side.pick s t).Declares (side.pick c d)

theorem PairSide.of_both (hs : s.WellFormed) (ht : t.WellFormed) (hc : s.Declares c)
    (hd : t.Declares d) (side : Side) : PairSide side s t c d := by
  cases side
  · exact ⟨hs, hc⟩
  · exact ⟨ht, hd⟩

theorem mem_pick_of_mem_pairUp {key : MethodKey} {pairing : Pairing} {m : Decl}
    (h : (key, pairing) ∈ pairUp (sortedByKey (c.members slot))
      (sortedByKey ((d.members slot).filter filter)))
    (hm : side.pick pairing.old? pairing.new? = some m) : m ∈ (side.pick c d).members slot := by
  have hp := mem_pairUp h
  have hnew : ∀ {n : Decl}, n ∈ (sortedByKey ((d.members slot).filter filter)).map Keyed.decl →
      n ∈ d.members slot := fun hn => List.mem_of_mem_filter (mem_map_decl_sortedByKey.mp hn)
  cases side <;> cases pairing <;> cases hm
  · exact mem_map_decl_sortedByKey.mp hp.1
  · exact mem_map_decl_sortedByKey.mp hp
  · exact hnew hp.2.1
  · exact hnew hp

/-- Events of constructors or methods are about members of the two classes and their parameters. -/
theorem belongs_of_methodEvents (h : PairSide side s t c d) (hslot : MemberRole role slot)
    (he : e ∈ methodEvents d (c.members slot) ((d.members slot).filter filter)) {x : Decl}
    (hx : e.on side = some x) : (side.pick s t).Declares x ∧
      x.homeClass? = some (side.pick c d) ∧ x.homeSlot? = some slot := by
  obtain ⟨⟨key, pairing⟩, hp, he⟩ := mem_methodEvents.mp he
  obtain ⟨m, hm, hxm⟩ := on_events he hx
  obtain ⟨hd, hc, hl, _⟩ := belongs_of_member h.wellFormed h.declares hslot
    (mem_pick_of_mem_pairUp hp hm) hxm
  exact ⟨hd, hc, hl⟩

/-- The events of one pairing are apart: the pair of methods from the pairs of parameters because
they are no parameters, and these from each other by position. -/
theorem pairwise_events (h : PairSide side s t c d) (hslot : MemberRole role slot)
    {key : MethodKey} {pairing : Pairing}
    (hp : (key, pairing) ∈ pairUp (sortedByKey (c.members slot))
      (sortedByKey ((d.members slot).filter filter))) :
    (pairing.events d).Pairwise (Apart side) := by
  cases pairing with
  | oldOnly o => exact List.pairwise_singleton _ _
  | newOnly n => exact List.pairwise_singleton _ _
  | both o n =>
    -- Only the method of this side counts, whichever side that is.
    obtain ⟨m, hm⟩ : ∃ m, side.pick (some o) (some n) = some m := by
      cases side
      · exact ⟨o, rfl⟩
      · exact ⟨n, rfl⟩
    have hmember := mem_pick_of_mem_pairUp hp hm
    have hdeclares := ((mem_members h.wellFormed h.declares).mp hmember).1
    have hparameters := pairwise_members h.wellFormed hdeclares .parameters
    have hfirst : Tagged side (side.pick s t) (fun x => x.asParameter?.isSome) false
        (.matched o n) := by
      intro x hx
      have hxm : x = m := by cases side <;> exact Option.some.inj (hx.symm.trans hm)
      subst hxm
      exact ⟨hdeclares, congrArg Option.isSome
        (asParameter?_of_member h.wellFormed h.declares hslot hmember)⟩
    have hrest : ∀ f, IsParameterPair o n f →
        Tagged side (side.pick s t) (fun x => x.asParameter?.isSome) true f := by
      rintro f ⟨y, z, hyz, rfl⟩ x hx
      rw [Decl.parameters_eq, Decl.parameters_eq] at hyz
      obtain ⟨hy, hz⟩ := List.of_mem_zip hyz
      have hxm : x ∈ m.members .parameters := by cases side <;> cases hx <;> cases hm <;> assumption
      obtain ⟨info, hpay⟩ := payload_of_parameter h.wellFormed hdeclares hxm
      refine ⟨((mem_members h.wellFormed hdeclares).mp hxm).1, ?_⟩
      simp only [Decl.asParameter?, hpay, Option.isSome_some]
    refine List.pairwise_cons.mpr ⟨?_, ?_⟩
    · intro f hf
      obtain ⟨⟨y, z⟩, hyz, rfl⟩ := List.mem_map.mp hf
      exact hfirst.apart (hrest _ ⟨y, z, hyz, rfl⟩) Bool.false_ne_true
    · rw [Decl.parameters_eq, Decl.parameters_eq, List.pairwise_map]
      cases side
      · cases hm
        refine (pairwise_zip_left _ hparameters).imp ?_
        rintro x y hne a b ha hb
        cases ha
        cases hb
        exact hne
      · cases hm
        refine (pairwise_zip_right _ hparameters).imp ?_
        rintro x y hne a b ha hb
        cases ha
        cases hb
        exact hne

theorem pairwise_sides (h : PairSide side s t c d) :
    ((pairUp (sortedByKey (c.members slot)) (sortedByKey ((d.members slot).filter filter))).filterMap
      fun p => side.pick p.2.old? p.2.new?).Pairwise fun a b => a.id ≠ b.id := by
  have hmembers := pairwise_members h.wellFormed h.declares slot
  cases side with
  | old =>
    have hperm := map_decl_sortedByKey_perm (c.members slot)
    rw [← filterMap_old?_pairUp _ (sortedByKey ((d.members slot).filter filter))] at hperm
    exact List.Pairwise.perm hmembers hperm.symm Ne.symm
  | new =>
    have hperm := (filterMap_new?_pairUp (sortedByKey (c.members slot)) _).trans
      (map_decl_sortedByKey_perm ((d.members slot).filter filter))
    exact List.Pairwise.perm (hmembers.filter filter) hperm.symm Ne.symm

theorem pairwise_methodEvents (h : PairSide side s t c d) (hslot : MemberRole role slot) :
    (methodEvents d (c.members slot) ((d.members slot).filter filter)).Pairwise (Apart side) := by
  unfold methodEvents
  refine List.Pairwise.perm ?_ ((List.mergeSort_perm _ _).flatMap_right _).symm Apart.symm
  refine List.pairwise_flatMap.mpr ⟨fun p hp => pairwise_events h hslot hp, ?_⟩
  refine (List.pairwise_filterMap.mp (pairwise_sides h)).imp_of_mem ?_
  intro p p' hp hp' hne e he f hf x y hx hy hid
  obtain ⟨m, hm, hxm⟩ := on_events he hx
  obtain ⟨m', hm', hym⟩ := on_events hf hy
  obtain ⟨hdx, _, _, hbx⟩ := belongs_of_member h.wellFormed h.declares hslot
    (mem_pick_of_mem_pairUp hp hm) hxm
  obtain ⟨hdy, _, _, hby⟩ := belongs_of_member h.wellFormed h.declares hslot
    (mem_pick_of_mem_pairUp hp' hm') hym
  rw [hdx.eq_of_id hdy hid, hby] at hbx
  exact hne m hm m' hm' (Option.some.inj hbx).symm

/-! ## Fields -/

def fieldBlock (newClass : Decl) (old new : List Decl) (name : String) : List Event :=
  match (firstByName old)[name]?, (firstByName new)[name]? with
  | some o, some n => [.matched o n]
  | some o, none => [.removed o (some newClass)]
  | none, some n => [.added n]
  | none, none => []

theorem fieldEvents_eq (newClass : Decl) (old new : List Decl) : fieldEvents newClass old new =
    (unionNames (firstByName old).keys (firstByName new).keys).flatMap
      (fieldBlock newClass old new) := rfl

/-- At most one event is about the fields of one name. -/
theorem fieldBlock_eq (newClass : Decl) (old new : List Decl) (name : String) :
    ∃ e : Option Event, fieldBlock newClass old new name = e.toList := by
  unfold fieldBlock
  cases (firstByName old)[name]? <;> cases (firstByName new)[name]?
  · exact ⟨none, rfl⟩
  · exact ⟨some _, rfl⟩
  · exact ⟨some _, rfl⟩
  · exact ⟨some _, rfl⟩

/-- The first fields of one name are matched, or one of them is alone. -/
theorem mem_fieldBlock {newClass : Decl} {old new : List Decl} {name : String} :
    e ∈ fieldBlock newClass old new name ↔
      (∃ o n, (firstByName old)[name]? = some o ∧ (firstByName new)[name]? = some n ∧
        e = .matched o n) ∨
      (∃ o, (firstByName old)[name]? = some o ∧ (firstByName new)[name]? = none ∧
        e = .removed o (some newClass)) ∨
      ∃ n, (firstByName old)[name]? = none ∧ (firstByName new)[name]? = some n ∧ e = .added n := by
  unfold fieldBlock
  cases ho : (firstByName old)[name]? <;> cases hn : (firstByName new)[name]? <;> simp

theorem mem_fieldEvents {newClass : Decl} {old new : List Decl} :
    e ∈ fieldEvents newClass old new ↔ ∃ name, e ∈ fieldBlock newClass old new name := by
  rw [fieldEvents_eq, List.mem_flatMap]
  refine exists_congr fun name => and_iff_right_of_imp fun h => ?_
  simp only [mem_unionNames, mem_keys_iff]
  rcases mem_fieldBlock.mp h with ⟨o, _, ho, _⟩ | ⟨o, ho, _⟩ | ⟨n, _, hn, _⟩
  · exact .inl ⟨o, ho⟩
  · exact .inl ⟨o, ho⟩
  · exact .inr ⟨n, hn⟩

/-- The declarations that field events are about are fields of the two classes with one name. -/
theorem on_fieldBlock {newClass : Decl} {old new : List Decl} {name : String} {x : Decl}
    (he : e ∈ fieldBlock newClass old new name) (hx : e.on side = some x) :
    x ∈ side.pick old new ∧ x.name = name := by
  rcases mem_fieldBlock.mp he with ⟨o, n, ho, hn, rfl⟩ | ⟨o, ho, _, rfl⟩ | ⟨n, _, hn, rfl⟩
  all_goals
    cases side <;> cases hx
    all_goals first | exact firstByName_mem ho | exact firstByName_mem hn

theorem belongs_of_fieldEvents (h : PairSide side s t c d)
    (he : e ∈ fieldEvents d (c.members .fields) ((d.members .fields).filter filter)) {x : Decl}
    (hx : e.on side = some x) : (side.pick s t).Declares x ∧
      x.homeClass? = some (side.pick c d) ∧ x.homeSlot? = some .fields := by
  obtain ⟨name, he⟩ := mem_fieldEvents.mp he
  have hm := (on_fieldBlock he hx).1
  have hmember : x ∈ (side.pick c d).members .fields := by
    cases side
    · exact hm
    · exact List.mem_of_mem_filter hm
  obtain ⟨hd, hc, hl, _⟩ := belongs_of_member h.wellFormed h.declares .field hmember (.inl rfl)
  exact ⟨hd, hc, hl⟩

theorem pairwise_fieldEvents (h : PairSide side s t c d) :
    (fieldEvents d (c.members .fields) ((d.members .fields).filter filter)).Pairwise
      (Apart side) := by
  rw [fieldEvents_eq]
  refine pairwise_apart_flatMap (side.pick s t) Decl.name id (nodup_unionNames _ _) ?_ ?_
  · intro name _
    obtain ⟨e, he⟩ := fieldBlock_eq d (c.members .fields) ((d.members .fields).filter filter) name
    rw [he]
    exact pairwise_toList e
  · intro name _ e he x hx
    have hd := (belongs_of_fieldEvents h (mem_fieldEvents.mpr ⟨name, he⟩) hx).1
    exact ⟨hd, (on_fieldBlock he hx).2⟩

/-! ## Members of two classes -/

theorem filter_all (ds : List Decl) : ds.filter Filter.all = ds := List.filter_eq_self.mpr fun _ _ => rfl

theorem memberEvents_eq (filter : Filter) (c d : Decl) : memberEvents filter c d =
    methodEvents d (c.members .constructors) ((d.members .constructors).filter filter) ++
      methodEvents d (c.members .methods) ((d.members .methods).filter filter) ++
      fieldEvents d (c.members .fields) ((d.members .fields).filter filter) := by
  unfold memberEvents
  simp only [Decl.constructors_eq, Decl.methods_eq, Decl.fields_eq]

theorem mem_memberEvents : e ∈ memberEvents filter c d ↔
    e ∈ methodEvents d (c.members .constructors) ((d.members .constructors).filter filter) ∨
      e ∈ methodEvents d (c.members .methods) ((d.members .methods).filter filter) ∨
      e ∈ fieldEvents d (c.members .fields) ((d.members .fields).filter filter) := by
  rw [memberEvents_eq, List.mem_append, List.mem_append, or_assoc]

theorem belongs_of_memberEvents (h : PairSide side s t c d) (he : e ∈ memberEvents filter c d)
    {x : Decl} (hx : e.on side = some x) : (side.pick s t).Declares x ∧
      x.homeClass? = some (side.pick c d) ∧ x.homeSlot?.isSome := by
  rcases mem_memberEvents.mp he with he | he | he
  · obtain ⟨hd, hc, hl⟩ := belongs_of_methodEvents h .constructor he hx
    exact ⟨hd, hc, by rw [hl]; rfl⟩
  · obtain ⟨hd, hc, hl⟩ := belongs_of_methodEvents h .method he hx
    exact ⟨hd, hc, by rw [hl]; rfl⟩
  · obtain ⟨hd, hc, hl⟩ := belongs_of_fieldEvents h he hx
    exact ⟨hd, hc, by rw [hl]; rfl⟩

theorem pairwise_memberEvents (h : PairSide side s t c d) :
    (memberEvents filter c d).Pairwise (Apart side) := by
  have htag : ∀ {slot role} {e : Event}, MemberRole role slot →
      e ∈ methodEvents d (c.members slot) ((d.members slot).filter filter) →
      Tagged side (side.pick s t) Decl.homeSlot? (some slot) e := by
    intro slot role e hslot he x hx
    obtain ⟨hd, _, hl⟩ := belongs_of_methodEvents h hslot he hx
    exact ⟨hd, hl⟩
  have htag' : ∀ {e : Event},
      e ∈ fieldEvents d (c.members .fields) ((d.members .fields).filter filter) →
      Tagged side (side.pick s t) Decl.homeSlot? (some .fields) e := by
    intro e he x hx
    obtain ⟨hd, _, hl⟩ := belongs_of_fieldEvents h he hx
    exact ⟨hd, hl⟩
  rw [memberEvents_eq]
  refine List.pairwise_append.mpr ⟨List.pairwise_append.mpr ⟨?_, ?_, ?_⟩, ?_, ?_⟩
  · exact pairwise_methodEvents h .constructor
  · exact pairwise_methodEvents h .method
  · intro e he f hf
    exact (htag .constructor he).apart (htag .method hf) (by decide)
  · exact pairwise_fieldEvents h
  · intro e he f hf
    rcases List.mem_append.mp he with he | he
    · exact (htag .constructor he).apart (htag' hf) (by decide)
    · exact (htag .method he).apart (htag' hf) (by decide)

/-! ## Classes of two packages -/

/-- The comparison matches the class `c` of `p` with the class `d` of `q`. -/
structure ClassPair (filter : Filter) (p q c d : Decl) : Prop where
  old : (lastByName p.classes)[c.name]? = some c
  new : (lastByName (q.classes.filter filter))[c.name]? = some d

theorem ClassPair.name_eq (h : ClassPair filter p q c d) : c.name = d.name :=
  (lastByName_mem h.new).2.symm

theorem ClassPair.accepted (h : ClassPair filter p q c d) : filter d = true :=
  (List.mem_filter.mp (lastByName_mem h.new).1).2

theorem ClassPair.old_mem (h : ClassPair filter p q c d) : c ∈ p.members .classes := by
  rw [← Decl.classes_eq]
  exact (lastByName_mem h.old).1

theorem ClassPair.new_mem (h : ClassPair filter p q c d) : d ∈ q.members .classes := by
  rw [← Decl.classes_eq]
  exact List.mem_of_mem_filter (lastByName_mem h.new).1

def classBlock (filter : Filter) (p q : Decl) (name : String) : List Event :=
  match (lastByName p.classes)[name]?, (lastByName (q.classes.filter filter))[name]? with
  | some o, some n => .matched o n :: memberEvents filter o n
  | some o, none =>
    if isWithinUnmatched o (lastByName (q.classes.filter filter)) then [] else [.removed o (some q)]
  | none, some n => if isWithinUnmatched n (lastByName p.classes) then [] else [.added n]
  | none, none => []

theorem classEvents_eq (filter : Filter) (p q : Decl) : classEvents filter p q =
    (unionNames (lastByName p.classes).keys (lastByName (q.classes.filter filter)).keys).flatMap
      (classBlock filter p q) := rfl

/-- Two classes of one name are matched, and their members behind them, or at most one event is about the
classes of the name. -/
theorem classBlock_eq (filter : Filter) (p q : Decl) (name : String) :
    (∃ c d, ClassPair filter p q c d ∧ c.name = name ∧
        classBlock filter p q name = .matched c d :: memberEvents filter c d) ∨
      ∃ e : Option Event, classBlock filter p q name = e.toList := by
  unfold classBlock
  cases hc : (lastByName p.classes)[name]? with
  | none =>
    cases (lastByName (q.classes.filter filter))[name]? with
    | none => exact .inr ⟨none, rfl⟩
    | some d =>
      dsimp only
      cases isWithinUnmatched d (lastByName p.classes) with
      | true => exact .inr ⟨none, rfl⟩
      | false => exact .inr ⟨some (.added d), rfl⟩
  | some c =>
    obtain ⟨_, rfl⟩ := lastByName_mem hc
    cases hd : (lastByName (q.classes.filter filter))[c.name]? with
    | none =>
      dsimp only
      cases isWithinUnmatched c (lastByName (q.classes.filter filter)) with
      | true => exact .inr ⟨none, rfl⟩
      | false => exact .inr ⟨some (.removed c (some q)), rfl⟩
    | some d => exact .inl ⟨c, d, ⟨hc, hd⟩, rfl, rfl⟩

/-- What the events of the classes of one name are. -/
theorem classBlock_cases {name : String} (h : e ∈ classBlock filter p q name) :
    (∃ c d, ClassPair filter p q c d ∧ c.name = name ∧
        (e = .matched c d ∨ e ∈ memberEvents filter c d)) ∨
      (∃ c, (lastByName p.classes)[name]? = some c ∧
        (lastByName (q.classes.filter filter))[name]? = none ∧
        isWithinUnmatched c (lastByName (q.classes.filter filter)) = false ∧
        e = .removed c (some q)) ∨
      ∃ d, (lastByName p.classes)[name]? = none ∧
        (lastByName (q.classes.filter filter))[name]? = some d ∧
        isWithinUnmatched d (lastByName p.classes) = false ∧ e = .added d := by
  unfold classBlock at h
  split at h
  · next c d hc hd =>
    obtain ⟨_, rfl⟩ := lastByName_mem hc
    exact .inl ⟨c, d, ⟨hc, hd⟩, rfl, List.mem_cons.mp h⟩
  · next c hc hd =>
    split at h
    · cases h
    · next hw => exact .inr (.inl ⟨c, hc, hd, Bool.eq_false_iff.mpr hw, List.mem_singleton.mp h⟩)
  · next d hc hd =>
    split at h
    · cases h
    · next hw => exact .inr (.inr ⟨d, hc, hd, Bool.eq_false_iff.mpr hw, List.mem_singleton.mp h⟩)
  · cases h

/-- A matched pair of classes is reported, and so are its members. -/
theorem mem_classEvents_of_pair (h : ClassPair filter p q c d)
    (he : e = .matched c d ∨ e ∈ memberEvents filter c d) : e ∈ classEvents filter p q := by
  rw [classEvents_eq]
  refine List.mem_flatMap.mpr ⟨c.name, ?_, ?_⟩
  · exact mem_unionNames.mpr (.inl (mem_keys_iff.mpr ⟨c, h.old⟩))
  · simp only [classBlock, h.old, h.new]
    exact List.mem_cons.mpr he

theorem ClassPair.pairSide (h : ClassPair filter p q c d) (hpq : PairSide side s t p q) :
    PairSide side s t c d := by
  refine ⟨hpq.wellFormed, ?_⟩
  cases side
  · exact ((mem_members hpq.wellFormed hpq.declares).mp h.old_mem).1
  · exact ((mem_members hpq.wellFormed hpq.declares).mp h.new_mem).1

/-- The class that a declaration belongs to is one of the two of its pair. -/
theorem ClassPair.home (h : ClassPair filter p q c d) (hpq : PairSide side s t p q) :
    (side.pick c d).asClass?.isSome ∧ (side.pick c d).homePackage? = some (side.pick p q) ∧
      (side.pick c d).name = c.name := by
  cases side
  · obtain ⟨hc, hp⟩ := class_of_mem_classes hpq.wellFormed hpq.declares h.old_mem
    exact ⟨hc, hp, rfl⟩
  · obtain ⟨hc, hp⟩ := class_of_mem_classes hpq.wellFormed hpq.declares h.new_mem
    exact ⟨hc, hp, h.name_eq.symm⟩

/-- The declarations that class events are about belong to the two packages and, in the events of one
name, to the classes of that name. -/
theorem belongs_of_classBlock (hpq : PairSide side s t p q) {name : String}
    (he : e ∈ classBlock filter p q name) {x : Decl} (hx : e.on side = some x) :
    (side.pick s t).Declares x ∧ x.homePackage? = some (side.pick p q) ∧
      x.homeClass?.map Decl.name = some name := by
  have hclass : ∀ c ∈ (side.pick p q).members .classes, (side.pick s t).Declares c ∧
      c.homePackage? = some (side.pick p q) ∧ c.homeClass?.map Decl.name = some c.name := by
    intro c hc
    obtain ⟨hsome, hp⟩ := class_of_mem_classes hpq.wellFormed hpq.declares hc
    refine ⟨((mem_members hpq.wellFormed hpq.declares).mp hc).1, hp, ?_⟩
    rw [homeClass?_of_asClass? hsome]
    rfl
  rcases classBlock_cases he with ⟨c, d, h, rfl, rfl | he⟩ | ⟨c, hc, _, _, rfl⟩ | ⟨d, _, hd, _, rfl⟩
  · cases side <;> cases hx
    · exact hclass _ h.old_mem
    · rw [h.name_eq]
      exact hclass _ h.new_mem
  · obtain ⟨hd, hc, _⟩ := belongs_of_memberEvents (h.pairSide hpq) he hx
    obtain ⟨hsome, hp, hn⟩ := h.home hpq
    refine ⟨hd, homePackage?_of_homeClass? hp hsome hc, ?_⟩
    rw [hc, ← hn]
    rfl
  · cases side <;> cases hx
    obtain ⟨hm, rfl⟩ := lastByName_mem hc
    exact hclass _ (Decl.classes_eq p ▸ hm)
  · cases side <;> cases hx
    obtain ⟨hm, rfl⟩ := lastByName_mem hd
    exact hclass _ (Decl.classes_eq q ▸ List.mem_of_mem_filter hm)

theorem pairwise_classEvents (hpq : PairSide side s t p q) :
    (classEvents filter p q).Pairwise (Apart side) := by
  rw [classEvents_eq]
  refine pairwise_apart_flatMap (side.pick s t) (fun x => x.homeClass?.map Decl.name) some
    ((nodup_unionNames _ _).imp fun hne he => hne (Option.some.inj he)) ?_ ?_
  · intro name _
    rcases classBlock_eq filter p q name with ⟨c, d, h, _, heq⟩ | ⟨e, heq⟩
    all_goals rw [heq]
    · refine List.pairwise_cons.mpr ⟨fun f hf => ?_, pairwise_memberEvents (h.pairSide hpq)⟩
      -- The class itself is in no list of a class, its members are.
      have htag : Tagged side (side.pick s t) (fun x => x.homeSlot?.isSome) false (.matched c d) := by
        intro x hx
        have hxc : x = side.pick c d := by cases side <;> exact (Option.some.inj hx).symm
        subst hxc
        exact ⟨(h.pairSide hpq).declares,
          congrArg Option.isSome (homeSlot?_of_asClass? (h.home hpq).1)⟩
      have htag' : Tagged side (side.pick s t) (fun x => x.homeSlot?.isSome) true f := by
        intro x hx
        obtain ⟨hdx, _, hl⟩ := belongs_of_memberEvents (h.pairSide hpq) hf hx
        exact ⟨hdx, hl⟩
      exact htag.apart htag' Bool.false_ne_true
    · exact pairwise_toList e
  · intro name _ e he x hx
    obtain ⟨hd, _, hn⟩ := belongs_of_classBlock hpq he hx
    exact ⟨hd, hn⟩

/-! ## Packages of two surfaces -/

structure PackagePair (s t : Surface) (filter : Filter) (p q : Decl) : Prop where
  old : s.findPackage? p.name = some p
  new : (t.findPackage? p.name).filter filter = some q

def packageBlock (s t : Surface) (filter : Filter) (name : String) : List Event :=
  match s.findPackage? name, (t.findPackage? name).filter filter with
  | some o, some n => .matched o n :: classEvents filter o n
  | some o, none => [.removed o none]
  | none, some n => [.added n]
  | none, none => []

theorem compare_eq (s t : Surface) (filter : Filter) : s.compare t filter =
    (unionNames (s.packageDecls.map Decl.name) (t.packageDecls.map Decl.name)).flatMap
      (packageBlock s t filter) := rfl

theorem PackagePair.find_new (h : PackagePair s t filter p q) :
    t.findPackage? p.name = some q ∧ filter q = true :=
  Option.filter_eq_some_iff.mp h.new

theorem PackagePair.pairSide (h : PackagePair s t filter p q) (hs : s.WellFormed)
    (ht : t.WellFormed) (side : Side) : PairSide side s t p q :=
  PairSide.of_both hs ht ((findPackage?_eq_some hs).mp h.old).1
    ((findPackage?_eq_some ht).mp h.find_new.1).1 side

/-- Two packages of one name are matched, and their classes behind them, or at most one event is about the
packages of the name. -/
theorem packageBlock_eq (hs : s.WellFormed) (t : Surface) (filter : Filter) (name : String) :
    (∃ p q, PackagePair s t filter p q ∧ p.name = name ∧
        packageBlock s t filter name = .matched p q :: classEvents filter p q) ∨
      ∃ e : Option Event, packageBlock s t filter name = e.toList := by
  unfold packageBlock
  cases hp : s.findPackage? name with
  | none =>
    cases (t.findPackage? name).filter filter with
    | none => exact .inr ⟨none, rfl⟩
    | some q => exact .inr ⟨some (.added q), rfl⟩
  | some p =>
    obtain ⟨_, _, rfl⟩ := (findPackage?_eq_some hs).mp hp
    cases hq : (t.findPackage? p.name).filter filter with
    | none => exact .inr ⟨some (.removed p none), rfl⟩
    | some q => exact .inl ⟨p, q, ⟨hp, hq⟩, rfl, rfl⟩

theorem packageBlock_cases (hs : s.WellFormed) {name : String}
    (h : e ∈ packageBlock s t filter name) :
    (∃ p q, PackagePair s t filter p q ∧ p.name = name ∧
        (e = .matched p q ∨ e ∈ classEvents filter p q)) ∨
      (∃ p, s.findPackage? name = some p ∧ (t.findPackage? name).filter filter = none ∧
        e = .removed p none) ∨
      ∃ q, s.findPackage? name = none ∧ (t.findPackage? name).filter filter = some q ∧
        e = .added q := by
  unfold packageBlock at h
  split at h
  · next p q hp hq =>
    obtain ⟨_, _, rfl⟩ := (findPackage?_eq_some hs).mp hp
    exact .inl ⟨p, q, ⟨hp, hq⟩, rfl, List.mem_cons.mp h⟩
  · next p hp hq => exact .inr (.inl ⟨p, hp, hq, List.mem_singleton.mp h⟩)
  · next q hp hq => exact .inr (.inr ⟨q, hp, hq, List.mem_singleton.mp h⟩)
  · cases h

theorem mem_compare_of_pair (hs : s.WellFormed) (h : PackagePair s t filter p q)
    (he : e = .matched p q ∨ e ∈ classEvents filter p q) : e ∈ s.compare t filter := by
  rw [compare_eq]
  obtain ⟨hp, hpackage, _⟩ := (findPackage?_eq_some hs).mp h.old
  refine List.mem_flatMap.mpr ⟨p.name, ?_, ?_⟩
  · exact mem_unionNames.mpr (.inl (List.mem_map_of_mem ((mem_packageDecls hs).mpr ⟨hp, hpackage⟩)))
  · simp only [packageBlock, h.old, h.new]
    exact List.mem_cons.mpr he

theorem belongs_of_packageBlock (hs : s.WellFormed) (ht : t.WellFormed) {name : String}
    (he : e ∈ packageBlock s t filter name) {x : Decl} (hx : e.on side = some x) :
    (side.pick s t).Declares x ∧ x.homePackage?.map Decl.name = some name := by
  have hpackage : ∀ {s : Surface} {p : Decl}, s.WellFormed → s.findPackage? name = some p →
      s.Declares p ∧ p.homePackage?.map Decl.name = some name := by
    intro s p hs hp
    obtain ⟨hd, hsome, rfl⟩ := (findPackage?_eq_some hs).mp hp
    refine ⟨hd, ?_⟩
    have hr := role_of_asPackage? hsome
    unfold Decl.homePackage?
    cases hpay : p.item.payload with
    | package info => rfl
    | _ => rw [hpay] at hr; cases hr
  rcases packageBlock_cases hs he with ⟨p, q, h, rfl, rfl | he⟩ | ⟨p, hp, _, rfl⟩ | ⟨q, _, hq, rfl⟩
  · cases side <;> cases hx
    · exact hpackage hs h.old
    · exact hpackage ht h.find_new.1
  · rw [classEvents_eq] at he
    obtain ⟨_, _, he⟩ := List.mem_flatMap.mp he
    obtain ⟨hd, hp, _⟩ := belongs_of_classBlock (h.pairSide hs ht side) he hx
    refine ⟨hd, ?_⟩
    have hname : (side.pick p q).name = p.name := by
      cases side
      · rfl
      · exact ((findPackage?_eq_some ht).mp h.find_new.1).2.2
    rw [hp, ← hname]
    rfl
  · cases side <;> cases hx
    exact hpackage hs hp
  · cases side <;> cases hx
    exact hpackage ht (Option.filter_eq_some_iff.mp hq).1

/-- What an event of a comparison is about on a side is a declaration of the surface of that side. -/
theorem declares_of_mem_compare (hs : s.WellFormed) (ht : t.WellFormed)
    (he : e ∈ s.compare t filter) {x : Decl} (hx : e.on side = some x) :
    (side.pick s t).Declares x := by
  rw [compare_eq] at he
  obtain ⟨_, _, he⟩ := List.mem_flatMap.mp he
  exact (belongs_of_packageBlock hs ht he hx).1

/-- No two events of a comparison are about the same declaration of a side. -/
theorem pairwise_compare (hs : s.WellFormed) (ht : t.WellFormed) (filter : Filter) (side : Side) :
    (s.compare t filter).Pairwise (Apart side) := by
  rw [compare_eq]
  refine pairwise_apart_flatMap (side.pick s t) (fun x => x.homePackage?.map Decl.name) some
    ((nodup_unionNames _ _).imp fun hne he => hne (Option.some.inj he)) ?_ ?_
  · intro name _
    rcases packageBlock_eq hs t filter name with ⟨p, q, h, _, heq⟩ | ⟨e, heq⟩
    all_goals rw [heq]
    · have hside := h.pairSide hs ht side
      obtain ⟨_, hpackage, _⟩ := (findPackage?_eq_some hs).mp h.old
      refine List.pairwise_cons.mpr ⟨fun f hf => ?_, pairwise_classEvents hside⟩
      -- A package belongs to no class, what is below it does.
      have htag : Tagged side (side.pick s t) (fun x => x.homeClass?.isSome) false (.matched p q) := by
        intro x hx
        have hxp : x = side.pick p q := by cases side <;> exact (Option.some.inj hx).symm
        have hsome : (side.pick p q).asPackage?.isSome := by
          cases side
          · exact hpackage
          · exact ((findPackage?_eq_some ht).mp h.find_new.1).2.1
        subst hxp
        exact ⟨hside.declares, congrArg Option.isSome (homeClass?_of_asPackage? hsome)⟩
      have htag' : Tagged side (side.pick s t) (fun x => x.homeClass?.isSome) true f := by
        intro x hx
        rw [classEvents_eq] at hf
        obtain ⟨_, _, hf⟩ := List.mem_flatMap.mp hf
        obtain ⟨hd, _, hn⟩ := belongs_of_classBlock hside hf hx
        refine ⟨hd, ?_⟩
        obtain ⟨c, hc, _⟩ := Option.map_eq_some_iff.mp hn
        simp only [hc, Option.isSome_some]
      exact htag.apart htag' Bool.false_ne_true
    · exact pairwise_toList e
  · intro name _ e he x hx
    exact belongs_of_packageBlock hs ht he hx

def ClassesMatched (s t : Surface) (filter : Filter) (c d : Decl) : Prop :=
  ∃ p q, PackagePair s t filter p q ∧ ClassPair filter p q c d

theorem ClassesMatched.pairSide (h : ClassesMatched s t filter c d) (hs : s.WellFormed)
    (ht : t.WellFormed) (side : Side) : PairSide side s t c d := by
  obtain ⟨p, q, hpq, hcd⟩ := h
  exact hcd.pairSide (hpq.pairSide hs ht side)

theorem ClassesMatched.mem_compare (h : ClassesMatched s t filter c d) (hs : s.WellFormed)
    (he : e = .matched c d ∨ e ∈ memberEvents filter c d) : e ∈ s.compare t filter := by
  obtain ⟨p, q, hpq, hcd⟩ := h
  exact mem_compare_of_pair hs hpq (.inr (mem_classEvents_of_pair hcd he))

/-- Where an event of a comparison comes from. -/
inductive Origin (s t : Surface) (filter : Filter) : Event → Prop where
  | packages {p q : Decl} (h : PackagePair s t filter p q) : Origin s t filter (.matched p q)
  | removedPackage {p : Decl} (hp : s.findPackage? p.name = some p)
      (hq : (t.findPackage? p.name).filter filter = none) : Origin s t filter (.removed p none)
  | addedPackage {q : Decl} (hp : s.findPackage? q.name = none)
      (hq : (t.findPackage? q.name).filter filter = some q) : Origin s t filter (.added q)
  | classes {c d : Decl} (h : ClassesMatched s t filter c d) : Origin s t filter (.matched c d)
  | removedClass {p q c : Decl} (h : PackagePair s t filter p q)
      (hc : (lastByName p.classes)[c.name]? = some c)
      (hd : (lastByName (q.classes.filter filter))[c.name]? = none)
      (hw : isWithinUnmatched c (lastByName (q.classes.filter filter)) = false) :
      Origin s t filter (.removed c (some q))
  | addedClass {p q d : Decl} (h : PackagePair s t filter p q)
      (hc : (lastByName p.classes)[d.name]? = none)
      (hd : (lastByName (q.classes.filter filter))[d.name]? = some d)
      (hw : isWithinUnmatched d (lastByName p.classes) = false) : Origin s t filter (.added d)
  | member {c d : Decl} {e : Event} (h : ClassesMatched s t filter c d)
      (he : e ∈ memberEvents filter c d) : Origin s t filter e

theorem origin_of_mem_compare (hs : s.WellFormed) (ht : t.WellFormed)
    (h : e ∈ s.compare t filter) : Origin s t filter e := by
  rw [compare_eq] at h
  obtain ⟨name, _, h⟩ := List.mem_flatMap.mp h
  rcases packageBlock_cases hs h with ⟨p, q, hpq, _, rfl | h⟩ | ⟨p, hp, hq, rfl⟩ | ⟨q, hp, hq, rfl⟩
  · exact .packages hpq
  · rw [classEvents_eq] at h
    obtain ⟨name, _, h⟩ := List.mem_flatMap.mp h
    rcases classBlock_cases h with ⟨c, d, hcd, _, rfl | h⟩ | ⟨c, hc, hd, hw, rfl⟩ |
      ⟨d, hc, hd, hw, rfl⟩
    · exact .classes ⟨p, q, hpq, hcd⟩
    · exact .member ⟨p, q, hpq, hcd⟩ h
    · obtain ⟨_, rfl⟩ := lastByName_mem hc
      exact .removedClass hpq hc hd hw
    · obtain ⟨_, rfl⟩ := lastByName_mem hd
      exact .addedClass hpq hc hd hw
  · obtain ⟨_, _, rfl⟩ := (findPackage?_eq_some hs).mp hp
    exact .removedPackage hp hq
  · obtain ⟨_, _, rfl⟩ := (findPackage?_eq_some ht).mp (Option.filter_eq_some_iff.mp hq).1
    exact .addedPackage hp hq

theorem homeSlot?_of_findPackage? (hs : s.WellFormed) {name : String}
    (h : s.findPackage? name = some p) : p.homeSlot? = none :=
  homeSlot?_of_asPackage? ((findPackage?_eq_some hs).mp h).2.1

theorem homeSlot?_of_mem_classes (hs : s.WellFormed) (hp : s.Declares p) (hc : c ∈ p.classes) :
    c.homeSlot? = none := by
  rw [Decl.classes_eq] at hc
  exact homeSlot?_of_asClass? (class_of_mem_classes hs hp hc).1

/-- An event about a member or a parameter comes from a matched pair of classes. -/
theorem Origin.member_of_homeSlot? (hs : s.WellFormed) (ht : t.WellFormed)
    (h : Origin s t filter e) {x : Decl} (hx : e.on side = some x) (hslot : x.homeSlot?.isSome) :
    ∃ c d, ClassesMatched s t filter c d ∧ e ∈ memberEvents filter c d := by
  have hno : x.homeSlot? = none → False := fun hn => by rw [hn] at hslot; cases hslot
  cases h with
  | member hcd he => exact ⟨_, _, hcd, he⟩
  | packages hpq =>
    cases side <;> cases hx
    · exact (hno (homeSlot?_of_findPackage? hs hpq.old)).elim
    · exact (hno (homeSlot?_of_findPackage? ht hpq.find_new.1)).elim
  | removedPackage hp =>
    cases side <;> cases hx
    exact (hno (homeSlot?_of_findPackage? hs hp)).elim
  | addedPackage _ hq =>
    cases side <;> cases hx
    exact (hno (homeSlot?_of_findPackage? ht (Option.filter_eq_some_iff.mp hq).1)).elim
  | classes hcd =>
    obtain ⟨p, q, hpq, hcd⟩ := hcd
    have hhome := homeSlot?_of_asClass? (hcd.home (hpq.pairSide hs ht side)).1
    cases side <;> cases hx <;> exact (hno hhome).elim
  | removedClass hpq hc =>
    have hp := (hpq.pairSide hs ht .old).declares
    cases side <;> cases hx
    exact (hno (homeSlot?_of_mem_classes hs hp (lastByName_mem hc).1)).elim
  | addedClass hpq _ hd =>
    have hq := (hpq.pairSide hs ht .new).declares
    cases side <;> cases hx
    exact (hno (homeSlot?_of_mem_classes ht hq
      (List.mem_of_mem_filter (lastByName_mem hd).1))).elim

end Comparison

end ApiSurface
