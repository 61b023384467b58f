import Mathlib.Data.List.Pairwise
import ApiSurface.Proofs.Walk

/-! # Accounting of a comparison

A comparison loses nothing and reports nothing twice. Every declaration of either side is in at most one
event; in a matched pair of classes every member is in exactly one, and no member is reported as removed
while a matching one of the same sort is reported as added. -/
namespace ApiSurface

open Arena Surface

namespace Event

/-- Whether an event is about the declaration of a side that has this id. -/
def concerns (side : Side) (id : ItemId) (e : Event) : Bool := (e.on side).any fun x => x.id == id

/-- Whether an event is about a field of this name of the old or of the new class. -/
def isAboutField (c d : Decl) (name : String) (e : Event) : Bool :=
  let isField (owner : Decl) (x : Decl) : Bool :=
    x.asField?.isSome && x.item.parent == some owner.id && x.name == name
  (e.on .old).any (isField c) || (e.on .new).any (isField d)

theorem concerns_iff {side : Side} {id : ItemId} {e : Event} :
    e.concerns side id = true ↔ ∃ x, e.on side = some x ∧ x.id = id := by
  unfold concerns
  cases e.on side <;> simp

end Event

def occurrences (side : Side) (x : Decl) (events : List Event) : Nat :=
  events.countP (Event.concerns side x.id)

/-- What the events say about the members of a matched pair of classes. -/
structure MembersAccounted (events : List Event) (filter : Filter) (c d : Decl) : Prop where
  /-- Every old constructor and method is matched or removed, once. -/
  old : ∀ o ∈ c.constructors ++ c.methods, occurrences .old o events = 1
  /-- Every accepted new constructor and method is matched or added, once. -/
  new : ∀ n ∈ d.constructors ++ d.methods, filter n = true → occurrences .new n events = 1
  /-- Every name of an old or of an accepted new field is met once. -/
  fields : ∀ name, (∃ f ∈ c.fields, f.name = name) ∨
      (∃ f ∈ d.fields, filter f = true ∧ f.name = name) →
    events.countP (Event.isAboutField c d name) = 1
  /-- No removed constructor matches an added one. -/
  constructors : ∀ o ∈ c.constructors, ∀ n ∈ d.constructors, ∀ place,
    Event.removed o place ∈ events → Event.added n ∈ events → o.signatureMatches n = false
  /-- No removed method matches an added one. -/
  methods : ∀ o ∈ c.methods, ∀ n ∈ d.methods, ∀ place,
    Event.removed o place ∈ events → Event.added n ∈ events → o.signatureMatches n = false

/-- What holds of the partners of a comparison. -/
structure Alike (o n : Decl) : Prop where
  /-- They are of one sort. -/
  label : o.item.payload.label = n.item.payload.label
  /-- They have one name, unless they are parameters. -/
  name : n.asParameter? = none → o.name = n.name
  /-- If they are methods or constructors, they match. -/
  signature : o.asMethod?.isSome → o.signatureMatches n = true

/-- What the events of a comparison say about both surfaces. Parameters go with their methods: they are
paired by position, whatever their names, and the filter is not asked about them. -/
structure Accounting (s t : Surface) (filter : Filter) (events : List Event) : Prop where
  /-- No declaration is met twice. -/
  once : ∀ (side : Side) (x : Decl), (side.pick s t).Declares x → occurrences side x events ≤ 1
  /-- Of the new surface only what the filter accepts is met. -/
  accepted : ∀ e ∈ events, ∀ n, e.on .new = some n → n.asParameter? = none → filter n = true
  /-- Partners are alike. -/
  alike : ∀ o n, Event.matched o n ∈ events → Alike o n
  /-- The members of matched classes are accounted for. -/
  members : ∀ c d, Event.matched c d ∈ events → c.asClass?.isSome →
    MembersAccounted events filter c d

namespace Comparison

open Event

variable {side : Side} {s t : Surface} {filter : Filter} {c d : Decl} {slot : Slot} {role : Role}
  {e f : Event}

/-! ## Nothing twice -/

theorem countP_le_one {α : Type} {R : α → α → Prop} {p : α → Bool} {l : List α} (h : l.Pairwise R)
    (hp : ∀ a ∈ l, ∀ b ∈ l, p a = true → p b = true → ¬R a b) : l.countP p ≤ 1 := by
  induction l with
  | nil => exact Nat.zero_le 1
  | cons a rest ih =>
    obtain ⟨ha, hrest⟩ := List.pairwise_cons.mp h
    have hle := ih hrest fun x hx y hy =>
      hp x (List.mem_cons_of_mem _ hx) y (List.mem_cons_of_mem _ hy)
    rw [List.countP_cons]
    split
    · next hpa =>
      have hzero : rest.countP p = 0 := by
        refine List.countP_eq_zero.mpr fun b hb hpb => ?_
        exact hp a List.mem_cons_self b (List.mem_cons_of_mem _ hb) hpa hpb (ha b hb)
      omega
    · exact hle

theorem occurrences_le_one (hs : s.WellFormed) (ht : t.WellFormed) (filter : Filter) (side : Side)
    (x : Decl) : occurrences side x (s.compare t filter) ≤ 1 := by
  refine countP_le_one (pairwise_compare hs ht filter side) fun e _ f _ he hf happart => ?_
  obtain ⟨y, hy, hyx⟩ := concerns_iff.mp he
  obtain ⟨z, hz, hzx⟩ := concerns_iff.mp hf
  exact happart y z hy hz (hyx.trans hzx.symm)

/-- Two events of a comparison about one declaration are the same. -/
theorem eq_of_concerns (hs : s.WellFormed) (ht : t.WellFormed) (he : e ∈ s.compare t filter)
    (hf : f ∈ s.compare t filter) {id : ItemId} (hce : e.concerns side id = true)
    (hcf : f.concerns side id = true) : e = f := by
  obtain ⟨x, hx, hxid⟩ := concerns_iff.mp hce
  obtain ⟨y, hy, hyid⟩ := concerns_iff.mp hcf
  by_contra hne
  have happart := (pairwise_compare hs ht filter side).forall he hf hne
  exact happart x y hx hy (hxid.trans hyid.symm)

theorem occurrences_eq_one (hs : s.WellFormed) (ht : t.WellFormed) (he : e ∈ s.compare t filter)
    {x : Decl} (hx : e.on side = some x) : occurrences side x (s.compare t filter) = 1 := by
  have hle := occurrences_le_one hs ht filter side x
  have hpos : 0 < occurrences side x (s.compare t filter) :=
    List.countP_pos_iff.mpr ⟨e, he, concerns_iff.mpr ⟨x, hx, rfl⟩⟩
  omega

/-! ## Partners -/

/-- How a pair below two matched classes arises. -/
inductive MemberPair (filter : Filter) (c d : Decl) : Decl → Decl → Prop where
  | member {role : Role} {slot : Slot} {o n : Decl} (hslot : MemberRole role slot)
      (ho : o ∈ c.members slot) (hn : n ∈ d.members slot) (hf : filter n = true)
      (hname : o.name = n.name) (hmatch : slot = .fields ∨ o.signatureMatches n = true) :
      MemberPair filter c d o n
  | parameter {role : Role} {slot : Slot} {a b o n : Decl} (hslot : MemberRole role slot)
      (ha : a ∈ c.members slot) (hb : b ∈ d.members slot) (ho : o ∈ a.members .parameters)
      (hn : n ∈ b.members .parameters) : MemberPair filter c d o n

theorem memberPair_of_methodEvents {o n : Decl} (hslot : MemberRole role slot)
    (h : Event.matched o n ∈ methodEvents d (c.members slot) ((d.members slot).filter filter)) :
    MemberPair filter c d o n := by
  rcases methodEvents_cases h with ⟨a, ha, b, hb, hmatch, heq | ⟨x, y, hxy, heq⟩⟩ | ⟨_, _, heq⟩ |
    ⟨_, _, heq⟩
  · cases heq
    obtain ⟨hb, hf⟩ := List.mem_filter.mp hb
    exact .member hslot ha hb hf (Decl.signatureMatches_sound hmatch).1 (.inr hmatch)
  · cases heq
    rw [Decl.parameters_eq, Decl.parameters_eq] at hxy
    obtain ⟨hx, hy⟩ := List.of_mem_zip hxy
    exact .parameter hslot ha (List.mem_of_mem_filter hb) hx hy
  · cases heq
  · cases heq

theorem memberPair_of_matched {o n : Decl} (h : Event.matched o n ∈ memberEvents filter c d) :
    MemberPair filter c d o n := by
  rcases mem_memberEvents.mp h with he | he | he
  · exact memberPair_of_methodEvents .constructor he
  · exact memberPair_of_methodEvents .method he
  · obtain ⟨name, he⟩ := mem_fieldEvents.mp he
    rcases mem_fieldBlock.mp he with ⟨a, b, ha, hb, heq⟩ | ⟨_, _, _, heq⟩ | ⟨_, _, _, heq⟩
    · cases heq
      obtain ⟨ha, han⟩ := firstByName_mem ha
      obtain ⟨hb, hbn⟩ := firstByName_mem hb
      obtain ⟨hb, hf⟩ := List.mem_filter.mp hb
      exact .member .field ha hb hf (han.trans hbn.symm) (.inl rfl)
    · cases heq
    · cases heq

theorem MemberPair.alike {o n : Decl} (hold : PairSide .old s t c d) (hnew : PairSide .new s t c d)
    (h : MemberPair filter c d o n) : Alike o n := by
  cases h with
  | @member role slot _ _ hslot ho hn hf hname hmatch =>
    have hro := role_of_member hold.wellFormed hold.declares hslot ho
    have hrn := role_of_member hnew.wellFormed hnew.declares hslot hn
    refine ⟨by rw [Payload.label_eq, Payload.label_eq, hro, hrn], fun _ => hname, fun hm => ?_⟩
    refine hmatch.resolve_left ?_
    rintro rfl
    rw [o.isSome_asMethod?, hro] at hm
    cases hslot
    rcases hm with hm | hm <;> cases hm
  | parameter hslot ha hb ho hn =>
    have hda := ((mem_members hold.wellFormed hold.declares).mp ha).1
    have hdb := ((mem_members hnew.wellFormed hnew.declares).mp hb).1
    obtain ⟨info, hpo⟩ := payload_of_parameter hold.wellFormed hda ho
    obtain ⟨info', hpn⟩ := payload_of_parameter hnew.wellFormed hdb hn
    refine ⟨by rw [hpo, hpn]; rfl, fun hnone => ?_, fun hm => ?_⟩
    · simp [Decl.asParameter?, hpn] at hnone
    · simp [Decl.asMethod?, hpo] at hm

theorem matched_alike (hs : s.WellFormed) (ht : t.WellFormed) {o n : Decl}
    (h : Event.matched o n ∈ s.compare t filter) : Alike o n := by
  generalize he : Event.matched o n = e at h
  cases origin_of_mem_compare hs ht h with
  | packages hpq =>
    cases he
    obtain ⟨_, hp, _⟩ := (findPackage?_eq_some hs).mp hpq.old
    obtain ⟨_, hq, hname⟩ := (findPackage?_eq_some ht).mp hpq.find_new.1
    refine ⟨?_, fun _ => hname.symm, fun hm => ?_⟩
    · rw [Payload.label_eq, Payload.label_eq, role_of_asPackage? hp, role_of_asPackage? hq]
      rfl
    · rw [o.isSome_asMethod?, role_of_asPackage? hp] at hm
      rcases hm with hm | hm <;> cases hm
  | classes hcd =>
    cases he
    obtain ⟨p, q, hpq, hcd⟩ := hcd
    obtain ⟨_, _, hc⟩ := role_of_asClass? (hcd.home (hpq.pairSide hs ht .old)).1
    obtain ⟨_, _, hd⟩ := role_of_asClass? (hcd.home (hpq.pairSide hs ht .new)).1
    change o.item.payload.role = _ at hc
    change n.item.payload.role = _ at hd
    refine ⟨by rw [Payload.label_eq, Payload.label_eq, hc, hd]; rfl, fun _ => hcd.name_eq,
      fun hm => ?_⟩
    rw [o.isSome_asMethod?, hc] at hm
    rcases hm with hm | hm <;> cases hm
  | member hcd hm =>
    subst he
    exact (memberPair_of_matched hm).alike (hcd.pairSide hs ht .old) (hcd.pairSide hs ht .new)
  | _ => cases he

/-- The filter accepts what is met of the new surface. -/
theorem accepted_of_mem_compare (hs : s.WellFormed) (ht : t.WellFormed)
    (h : e ∈ s.compare t filter) {n : Decl} (hn : e.on .new = some n) (hp : n.asParameter? = none) :
    filter n = true := by
  cases origin_of_mem_compare hs ht h with
  | packages hpq => cases hn; exact hpq.find_new.2
  | removedPackage => cases hn
  | addedPackage _ hq => cases hn; exact (Option.filter_eq_some_iff.mp hq).2
  | classes hcd =>
    cases hn
    obtain ⟨_, _, _, hcd⟩ := hcd
    exact hcd.accepted
  | removedClass => cases hn
  | addedClass _ _ hd => cases hn; exact (List.mem_filter.mp (lastByName_mem hd).1).2
  | @member c d _ hcd hm =>
    have hmethods : ∀ {role slot}, MemberRole role slot →
        e ∈ methodEvents d (c.members slot) ((d.members slot).filter filter) → filter n = true := by
      intro role slot hslot he
      rcases methodEvents_cases he with ⟨a, ha, b, hb, _, rfl | ⟨x, y, hxy, rfl⟩⟩ | ⟨_, _, rfl⟩ |
        ⟨b, hb, rfl⟩
      · cases hn
        exact (List.mem_filter.mp hb).2
      · cases hn
        have hnew := hcd.pairSide hs ht .new
        have hdb := ((mem_members hnew.wellFormed hnew.declares).mp (List.mem_of_mem_filter hb)).1
        rw [Decl.parameters_eq, Decl.parameters_eq] at hxy
        obtain ⟨info, hpay⟩ := payload_of_parameter hnew.wellFormed hdb (List.of_mem_zip hxy).2
        simp [Decl.asParameter?, Side.pick, hpay] at hp
      · cases hn
      · cases hn
        exact (List.mem_filter.mp hb).2
    rcases mem_memberEvents.mp hm with he | he | he
    · exact hmethods .constructor he
    · exact hmethods .method he
    · obtain ⟨name, he⟩ := mem_fieldEvents.mp he
      exact (List.mem_filter.mp (on_fieldBlock he hn).1).2

/-! ## Members of matched classes -/

theorem ClassesMatched.of_mem_compare (hs : s.WellFormed) (ht : t.WellFormed)
    (h : Event.matched c d ∈ s.compare t filter) (hc : c.asClass?.isSome) :
    ClassesMatched s t filter c d := by
  generalize he : Event.matched c d = e at h
  obtain ⟨package, outer, hr⟩ := role_of_asClass? hc
  cases origin_of_mem_compare hs ht h with
  | packages hpq =>
    cases he
    obtain ⟨_, hp, _⟩ := (findPackage?_eq_some hs).mp hpq.old
    rw [role_of_asPackage? hp] at hr
    cases hr
  | classes hcd => cases he; exact hcd
  | member hcd hm =>
    subst he
    have hold := hcd.pairSide hs ht .old
    cases memberPair_of_matched hm with
    | member hslot ho hn hf hname hmatch =>
      rw [role_of_member hold.wellFormed hold.declares hslot ho] at hr
      subst hr
      cases hslot
    | parameter hslot ha hb ho hn =>
      have hda := ((mem_members hold.wellFormed hold.declares).mp ha).1
      obtain ⟨info, hpo⟩ := payload_of_parameter hold.wellFormed hda ho
      rw [hpo] at hr
      cases hr
  | _ => cases he

inductive IsMethodSlot : Slot → Prop where
  | constructors : IsMethodSlot .constructors
  | methods : IsMethodSlot .methods

theorem IsMethodSlot.memberRole (h : IsMethodSlot slot) : ∃ role, MemberRole role slot := by
  cases h
  · exact ⟨_, .constructor⟩
  · exact ⟨_, .method⟩

theorem IsMethodSlot.mem_memberEvents (h : IsMethodSlot slot)
    (he : e ∈ methodEvents d (c.members slot) ((d.members slot).filter filter)) :
    e ∈ memberEvents filter c d := by
  cases h
  · exact Comparison.mem_memberEvents.mpr (.inl he)
  · exact Comparison.mem_memberEvents.mpr (.inr (.inl he))

theorem exists_isMethodSlot {members : Decl → List Decl}
    (h : members ∈ [Decl.constructors, Decl.methods]) :
    ∃ slot, IsMethodSlot slot ∧ members = (·.members slot) := by
  simp only [List.mem_cons, List.not_mem_nil, or_false] at h
  rcases h with rfl | rfl
  · exact ⟨_, .constructors, funext Decl.constructors_eq⟩
  · exact ⟨_, .methods, funext Decl.methods_eq⟩

theorem mem_constructors_append_methods {x : Decl} :
    x ∈ c.constructors ++ c.methods ↔ ∃ slot, IsMethodSlot slot ∧ x ∈ c.members slot := by
  rw [List.mem_append, Decl.constructors_eq, Decl.methods_eq]
  constructor
  · rintro (h | h)
    · exact ⟨_, .constructors, h⟩
    · exact ⟨_, .methods, h⟩
  · rintro ⟨slot, hslot, h⟩
    cases hslot
    · exact .inl h
    · exact .inr h

theorem declares_of_mem_constructors_append_methods (hs : s.WellFormed) (hc : s.Declares c) {x : Decl}
    (hx : x ∈ c.constructors ++ c.methods) : s.Declares x := by
  obtain ⟨slot, _, hx⟩ := mem_constructors_append_methods.mp hx
  exact ((mem_members hs hc).mp hx).1

/-- A removed member of a class is said to be missing in the other one. -/
theorem removed_of_memberEvents {o : Decl} {place : Option Decl}
    (h : Event.removed o place ∈ memberEvents filter c d) :
    (o ∈ c.constructors ++ c.methods ∨ o ∈ c.fields) ∧ place = some d := by
  have hmethods : ∀ {slot : Slot}, Event.removed o place ∈
      methodEvents d (c.members slot) ((d.members slot).filter filter) →
      o ∈ c.members slot ∧ place = some d := by
    intro slot he
    rcases methodEvents_cases he with ⟨_, _, _, _, _, heq | ⟨_, _, _, heq⟩⟩ | ⟨_, ho, heq⟩ |
      ⟨_, _, heq⟩
    · cases heq
    · cases heq
    · cases heq
      exact ⟨ho, rfl⟩
    · cases heq
  rw [List.mem_append, Decl.constructors_eq, Decl.methods_eq, Decl.fields_eq]
  rcases mem_memberEvents.mp h with he | he | he
  · obtain ⟨ho, hplace⟩ := hmethods he
    exact ⟨.inl (.inl ho), hplace⟩
  · obtain ⟨ho, hplace⟩ := hmethods he
    exact ⟨.inl (.inr ho), hplace⟩
  · obtain ⟨name, he⟩ := mem_fieldEvents.mp he
    rcases mem_fieldBlock.mp he with ⟨_, _, _, _, heq⟩ | ⟨_, ho, _, heq⟩ | ⟨_, _, _, heq⟩
    · cases heq
    · cases heq
      exact ⟨.inr (firstByName_mem ho).1, rfl⟩
    · cases heq

/-- An old constructor or method of a class is met. -/
theorem exists_event_of_old_member (d : Decl) (filter : Filter) {o : Decl} (ho : o ∈ c.members slot) :
    ∃ e ∈ methodEvents d (c.members slot) ((d.members slot).filter filter), e.on .old = some o := by
  rcases exists_event_of_old d ((d.members slot).filter filter) ho with
    ⟨n, _, _, he⟩ | he
  · exact ⟨_, he, rfl⟩
  · exact ⟨_, he, rfl⟩

/-- An accepted new constructor or method of a class is met. -/
theorem exists_event_of_new_member (c : Decl) {n : Decl} (hn : n ∈ d.members slot)
    (hf : filter n = true) :
    ∃ e ∈ methodEvents d (c.members slot) ((d.members slot).filter filter), e.on .new = some n := by
  have hm : n ∈ (d.members slot).filter filter := List.mem_filter.mpr ⟨hn, hf⟩
  rcases exists_event_of_new d (c.members slot) hm with ⟨o, _, he⟩ | he
  · exact ⟨_, he, rfl⟩
  · exact ⟨_, he, rfl⟩

theorem concerns_of_on {x : Decl} (h : e.on side = some x) : e.concerns side x.id = true :=
  concerns_iff.mpr ⟨x, h, rfl⟩

/-- What a comparison says about a constructor or a method of two matched classes is what it says about
their constructors or methods. -/
theorem ClassesMatched.mem_compare_iff (hs : s.WellFormed) (ht : t.WellFormed)
    (hcd : ClassesMatched s t filter c d) (hslot : IsMethodSlot slot) {x : Decl}
    (hx : e.on side = some x)
    (hmember : x ∈ side.pick (c.members slot) ((d.members slot).filter filter)) :
    e ∈ s.compare t filter ↔ e ∈ methodEvents d (c.members slot) ((d.members slot).filter filter) := by
  obtain ⟨f, hf, hfx⟩ : ∃ f ∈ methodEvents d (c.members slot) ((d.members slot).filter filter),
      f.on side = some x := by
    cases side with
    | old => exact exists_event_of_old_member d filter hmember
    | new =>
      obtain ⟨hn, haccepted⟩ := List.mem_filter.mp hmember
      exact exists_event_of_new_member c hn haccepted
  have hmem := hcd.mem_compare hs (.inr (hslot.mem_memberEvents hf))
  refine ⟨fun he => ?_, fun he => hcd.mem_compare hs (.inr (hslot.mem_memberEvents he))⟩
  rwa [eq_of_concerns hs ht he hmem (concerns_of_on hx) (concerns_of_on hfx)]

/-- The events of a pairing are events of the comparison. -/
theorem ClassesMatched.mem_compare_of_pairUp (hs : s.WellFormed) (hcd : ClassesMatched s t filter c d)
    (hslot : IsMethodSlot slot) {p : MethodKey × Pairing} (hp : p ∈ pairUp (sortedByKey (c.members slot))
      (sortedByKey ((d.members slot).filter filter))) (he : e ∈ p.2.events d) :
    e ∈ s.compare t filter :=
  hcd.mem_compare hs (.inr (hslot.mem_memberEvents (mem_methodEvents.mpr ⟨p, hp, he⟩)))

/-- Two constructors or methods, of which one is a member of two matched classes, are matched iff they are
paired. -/
theorem ClassesMatched.matched_mem_compare_iff (hs : s.WellFormed) (ht : t.WellFormed)
    (hcd : ClassesMatched s t filter c d) (hslot : IsMethodSlot slot) {o n : Decl}
    (hmember : o ∈ c.members slot ∨ n ∈ (d.members slot).filter filter) :
    Event.matched o n ∈ s.compare t filter ↔ ∃ key, (key, .both o n) ∈
      pairUp (sortedByKey (c.members slot)) (sortedByKey ((d.members slot).filter filter)) := by
  constructor
  · intro he
    rcases hmember with ho | hn
    · have hon : (Event.matched o n).on .old = some o := rfl
      obtain ⟨key, ⟨n', hp⟩ | hp⟩ := exists_old_pairUp
        (sortedByKey ((d.members slot).filter filter)) (mem_map_decl_sortedByKey.mpr ho)
      · have hmem := hcd.mem_compare_of_pairUp hs hslot hp (mem_events_both.mpr (.inl rfl))
        cases eq_of_concerns hs ht he hmem (concerns_of_on hon) (concerns_of_on rfl)
        exact ⟨key, hp⟩
      · have hmem := hcd.mem_compare_of_pairUp hs hslot hp (removed_mem_events.mpr ⟨rfl, rfl⟩)
        cases eq_of_concerns hs ht he hmem (concerns_of_on hon) (concerns_of_on rfl)
    · have hon : (Event.matched o n).on .new = some n := rfl
      obtain ⟨key, ⟨o', hp⟩ | hp⟩ := exists_new_pairUp
        (sortedByKey (c.members slot)) (mem_map_decl_sortedByKey.mpr hn)
      · have hmem := hcd.mem_compare_of_pairUp hs hslot hp (mem_events_both.mpr (.inl rfl))
        cases eq_of_concerns hs ht he hmem (concerns_of_on hon) (concerns_of_on rfl)
        exact ⟨key, hp⟩
      · have hmem := hcd.mem_compare_of_pairUp hs hslot hp (added_mem_events.mpr rfl)
        cases eq_of_concerns hs ht he hmem (concerns_of_on hon) (concerns_of_on rfl)
  · rintro ⟨key, hp⟩
    exact hcd.mem_compare_of_pairUp hs hslot hp (mem_events_both.mpr (.inl rfl))

/-- In a matched pair of classes no removed member matches an added one of the same sort. -/
theorem members_maximal (hs : s.WellFormed) (ht : t.WellFormed) (hcd : ClassesMatched s t filter c d)
    (hslot : IsMethodSlot slot) {o n : Decl} (ho : o ∈ c.members slot) (hn : n ∈ d.members slot)
    {place : Option Decl} (hremoved : Event.removed o place ∈ s.compare t filter)
    (hadded : Event.added n ∈ s.compare t filter) : o.signatureMatches n = false := by
  obtain ⟨role, hrole⟩ := hslot.memberRole
  have hnew := hcd.pairSide hs ht .new
  have hparameter := asParameter?_of_member hnew.wellFormed hnew.declares hrole hn
  have haccepted := accepted_of_mem_compare hs ht hadded rfl hparameter
  have hon : (Event.removed o place).on .old = some o := rfl
  have hon' : (Event.added n).on .new = some n := rfl
  exact methodEvents_maximal ((hcd.mem_compare_iff hs ht hslot hon ho).mp hremoved)
    ((hcd.mem_compare_iff hs ht hslot hon' (List.mem_filter.mpr ⟨hn, haccepted⟩)).mp hadded)

/-! ## Fields of matched classes -/

theorem isAboutField_iff {name : String} : e.isAboutField c d name = true ↔
    ∃ side x, e.on side = some x ∧ x.asField?.isSome ∧ x.item.parent = some (side.pick c d).id ∧
      x.name = name := by
  unfold isAboutField
  simp only [Bool.or_eq_true, Option.any_eq_true, Bool.and_eq_true, beq_iff_eq, and_assoc]
  constructor
  · rintro (⟨x, hx, h⟩ | ⟨x, hx, h⟩)
    · exact ⟨.old, x, hx, h⟩
    · exact ⟨.new, x, hx, h⟩
  · rintro ⟨side, x, hx, h⟩
    cases side
    · exact .inl ⟨x, hx, h⟩
    · exact .inr ⟨x, hx, h⟩

/-- One matched class determines the other. -/
theorem ClassesMatched.unique (hs : s.WellFormed) (ht : t.WellFormed) {c' d' : Decl}
    (h : ClassesMatched s t filter c d) (h' : ClassesMatched s t filter c' d')
    (heq : (side.pick c d).id = (side.pick c' d').id) : c = c' ∧ d = d' := by
  have hc : (Event.matched c d).concerns side (side.pick c d).id = true := concerns_of_on rfl
  have hc' : (Event.matched c' d').concerns side (side.pick c d).id = true :=
    heq ▸ concerns_of_on rfl
  cases eq_of_concerns hs ht (h.mem_compare hs (.inl rfl)) (h'.mem_compare hs (.inl rfl)) hc hc'
  exact ⟨rfl, rfl⟩

/-- The events about fields of one name of two matched classes are those of that name. -/
theorem mem_fieldBlock_of_isAboutField (hs : s.WellFormed) (ht : t.WellFormed)
    (hcd : ClassesMatched s t filter c d) {name : String} (he : e ∈ s.compare t filter)
    (habout : e.isAboutField c d name = true) :
    e ∈ fieldBlock d (c.members .fields) ((d.members .fields).filter filter) name := by
  obtain ⟨side, x, hx, hfield, hparent, hname⟩ := isAboutField_iff.mp habout
  have hrole := x.isSome_asField?.mp hfield
  have hdx := declares_of_mem_compare hs ht he hx
  have hside := hcd.pairSide hs ht side
  have hhome : x.homeClass? = some (side.pick c d) := by
    unfold Decl.homeClass?
    cases hpay : x.item.payload with
    | field info =>
      simp only [Decl.parent?, hparent, Option.bind_some, hdx.surface]
      exact hside.declares
    | _ => rw [hpay] at hrole; cases hrole
  have hslot : x.homeSlot? = some .fields := by
    unfold Decl.homeSlot? Decl.containingMethod?
    cases hpay : x.item.payload with
    | field info => simp [hpay]
    | _ => rw [hpay] at hrole; cases hrole
  obtain ⟨c', d', hcd', hmem⟩ := (origin_of_mem_compare hs ht he).member_of_homeSlot? hs ht hx
    (by rw [hslot]; rfl)
  have hside' := hcd'.pairSide hs ht side
  -- The field is at home in one class only, so the pair that the event comes from is this one.
  have hpick := (belongs_of_memberEvents hside' hmem hx).2.1
  rw [hhome, Option.some.injEq] at hpick
  obtain ⟨rfl, rfl⟩ := hcd.unique hs ht hcd' (congrArg Decl.id hpick)
  rcases mem_memberEvents.mp hmem with hm | hm | hm
  · rw [(belongs_of_methodEvents hside' .constructor hm hx).2.2] at hslot
    cases hslot
  · rw [(belongs_of_methodEvents hside' .method hm hx).2.2] at hslot
    cases hslot
  · obtain ⟨name', hm⟩ := mem_fieldEvents.mp hm
    rw [← hname, (on_fieldBlock hm hx).2]
    exact hm

theorem length_fieldBlock (newClass : Decl) (old new : List Decl) (name : String) :
    (fieldBlock newClass old new name).length ≤ 1 := by
  unfold fieldBlock
  split <;> simp

theorem eq_of_length_le_one {α : Type} {l : List α} {a b : α} (h : l.length ≤ 1) (ha : a ∈ l)
    (hb : b ∈ l) : a = b := by
  match l, h with
  | [x], _ =>
    rw [List.mem_singleton] at ha hb
    rw [ha, hb]

/-- A name that a field has on either side is met in its block. -/
theorem exists_fieldBlock {old new : List Decl} {name : String} (newClass : Decl)
    (h : (∃ f ∈ old, f.name = name) ∨ ∃ f ∈ new, f.name = name) :
    ∃ e side x, e ∈ fieldBlock newClass old new name ∧ e.on side = some x := by
  have hfind : ∀ {ds : List Decl}, (∃ f ∈ ds, f.name = name) →
      ∃ f, (firstByName ds)[name]? = some f := by
    rintro ds ⟨f, hf, hn⟩
    rw [← Option.isSome_iff_exists, getElem?_firstByName, List.find?_isSome]
    exact ⟨f, hf, by simpa using hn⟩
  cases ho : (firstByName old)[name]? with
  | some o =>
    cases hn : (firstByName new)[name]? with
    | some n =>
      exact ⟨.matched o n, .old, o, mem_fieldBlock.mpr (.inl ⟨o, n, ho, hn, rfl⟩), rfl⟩
    | none =>
      exact ⟨.removed o (some newClass), .old, o,
        mem_fieldBlock.mpr (.inr (.inl ⟨o, ho, hn, rfl⟩)), rfl⟩
  | none =>
    rcases h with h | h
    · obtain ⟨f, hf⟩ := hfind h
      rw [ho] at hf
      cases hf
    · obtain ⟨n, hn⟩ := hfind h
      exact ⟨.added n, .new, n, mem_fieldBlock.mpr (.inr (.inr ⟨n, ho, hn, rfl⟩)), rfl⟩

/-- What a block of fields is about are fields of the two classes. -/
theorem isAboutField_of_mem_fieldBlock (hside : PairSide side s t c d) {name : String} {x : Decl}
    (he : e ∈ fieldBlock d (c.members .fields) ((d.members .fields).filter filter) name)
    (hx : e.on side = some x) : e.isAboutField c d name = true := by
  obtain ⟨hm, hname⟩ := on_fieldBlock he hx
  have hmember : x ∈ (side.pick c d).members .fields := by
    cases side
    · exact hm
    · exact List.mem_of_mem_filter hm
  have hrole := role_of_member hside.wellFormed hside.declares .field hmember
  have hparent := parent_of_member hside.wellFormed hside.declares hmember (by decide) (by decide)
  exact isAboutField_iff.mpr ⟨side, x, hx, x.isSome_asField?.mpr hrole, hparent, hname⟩

/-- In a matched pair of classes every field name is met exactly once. -/
theorem countP_isAboutField (hs : s.WellFormed) (ht : t.WellFormed)
    (hcd : ClassesMatched s t filter c d) {name : String} (h : (∃ f ∈ c.fields, f.name = name) ∨
      ∃ f ∈ d.fields, filter f = true ∧ f.name = name) :
    (s.compare t filter).countP (isAboutField c d name) = 1 := by
  have hnames : (∃ f ∈ c.members .fields, f.name = name) ∨
      ∃ f ∈ (d.members .fields).filter filter, f.name = name := by
    rw [Decl.fields_eq, Decl.fields_eq] at h
    rcases h with h | ⟨f, hf, haccepted, hname⟩
    · exact .inl h
    · exact .inr ⟨f, List.mem_filter.mpr ⟨hf, haccepted⟩, hname⟩
  have hpos : 0 < (s.compare t filter).countP (isAboutField c d name) := by
    obtain ⟨e, side, x, he, hx⟩ := exists_fieldBlock d hnames
    have hmem : e ∈ memberEvents filter c d :=
      mem_memberEvents.mpr (.inr (.inr (mem_fieldEvents.mpr ⟨name, he⟩)))
    have habout := isAboutField_of_mem_fieldBlock (hcd.pairSide hs ht side) he hx
    exact List.countP_pos_iff.mpr ⟨e, hcd.mem_compare hs (.inr hmem), habout⟩
  have hle : (s.compare t filter).countP (isAboutField c d name) ≤ 1 := by
    have happart := (pairwise_compare hs ht filter .old).and (pairwise_compare hs ht filter .new)
    refine countP_le_one happart fun e he f hf hae haf hapart => ?_
    have heb := mem_fieldBlock_of_isAboutField hs ht hcd he hae
    have hfb := mem_fieldBlock_of_isAboutField hs ht hcd hf haf
    have hef : e = f := eq_of_length_le_one (length_fieldBlock d _ _ name) heb hfb
    subst hef
    obtain ⟨side, x, hx, _⟩ := isAboutField_iff.mp hae
    cases side
    · exact hapart.1 x x hx hx rfl
    · exact hapart.2 x x hx hx rfl
  omega

/-! ## The whole comparison -/

theorem members_accounted (hs : s.WellFormed) (ht : t.WellFormed)
    (hcd : ClassesMatched s t filter c d) :
    MembersAccounted (s.compare t filter) filter c d := by
  refine ⟨fun o ho => ?_, fun n hn hf => ?_, fun name h => countP_isAboutField hs ht hcd h, ?_, ?_⟩
  · obtain ⟨slot, hslot, ho⟩ := mem_constructors_append_methods.mp ho
    obtain ⟨e, he, heo⟩ := exists_event_of_old_member d filter ho
    exact occurrences_eq_one hs ht (hcd.mem_compare hs (.inr (hslot.mem_memberEvents he))) heo
  · obtain ⟨slot, hslot, hn⟩ := mem_constructors_append_methods.mp hn
    obtain ⟨e, he, hen⟩ := exists_event_of_new_member c hn hf
    exact occurrences_eq_one hs ht (hcd.mem_compare hs (.inr (hslot.mem_memberEvents he))) hen
  · intro o ho n hn place hremoved hadded
    rw [Decl.constructors_eq] at ho hn
    exact members_maximal hs ht hcd .constructors ho hn hremoved hadded
  · intro o ho n hn place hremoved hadded
    rw [Decl.methods_eq] at ho hn
    exact members_maximal hs ht hcd .methods ho hn hremoved hadded

end Comparison

namespace Surface

open Comparison

/-- A comparison of two surfaces accounts for both of them, whatever the filter. -/
theorem compare_accounting {s t : Surface} (hs : s.Built) (ht : t.Built) (filter : Filter) :
    Accounting s t filter (s.compare t filter) := by
  have hs' := hs.wellFormed
  have ht' := ht.wellFormed
  refine ⟨fun side x _ => occurrences_le_one hs' ht' filter side x, ?_, ?_, ?_⟩
  · intro e he n hn hp
    exact accepted_of_mem_compare hs' ht' he hn hp
  · intro o n h
    exact matched_alike hs' ht' h
  · intro c d h hc
    exact members_accounted hs' ht' (ClassesMatched.of_mem_compare hs' ht' h hc)

end Surface

/-- A surface with one public class, which has these constructors and methods. -/
def Recipe.ofClass (constructors methods : List MethodSpec) : Recipe :=
  { calls := [.packageSpec { name := "p", classes := [
      { name := "p.C", modifiers := .ofVisibility .publicAccess, constructors, methods }] }] }

/-- Whether the first event matches two classes and the others lose a match between members of them. -/
def Event.loseMatch : Event → Event → Event → Bool
  | .matched c d, .removed o _, .added n =>
    c.asClass?.isSome && (c.constructors ++ c.methods).any (·.id == o.id) &&
      (d.constructors ++ d.methods).any (·.id == n.id) && o.signatureMatches n
  | _, _, _ => false

namespace Surface

open Comparison

theorem compare_accounting_constructor_method :
    ((Recipe.ofClass [.published ""] []).build 1 "old").Built ∧
      ((Recipe.ofClass [] [.published "C"]).build 2 "new").Built ∧
      Accounting ((Recipe.ofClass [.published ""] []).build 1 "old")
        ((Recipe.ofClass [] [.published "C"]).build 2 "new") .published
        (((Recipe.ofClass [.published ""] []).build 1 "old").compare
          ((Recipe.ofClass [] [.published "C"]).build 2 "new") .published) :=
  ⟨⟨_, _, _, rfl⟩, ⟨_, _, _, rfl⟩, compare_accounting ⟨_, _, _, rfl⟩ ⟨_, _, _, rfl⟩ .published⟩

/-- Three such events show that a removed member matches an added one. -/
theorem exists_of_loseMatch {s t : Surface} (filter : Filter) (hs : s.WellFormed) (ht : t.WellFormed)
    (h : ∃ e ∈ s.compare t filter, ∃ f ∈ s.compare t filter, ∃ g ∈ s.compare t filter,
      Event.loseMatch e f g = true) :
    ∃ c d, Event.matched c d ∈ s.compare t filter ∧ c.asClass?.isSome ∧
      ∃ o ∈ c.constructors ++ c.methods, ∃ n ∈ d.constructors ++ d.methods, ∃ place,
        Event.removed o place ∈ s.compare t filter ∧ Event.added n ∈ s.compare t filter ∧
        o.signatureMatches n = true := by
  obtain ⟨e, he, f, hf, g, hg, hlost⟩ := h
  unfold Event.loseMatch at hlost
  split at hlost
  · next c d o place n =>
    simp only [Bool.and_eq_true, List.any_eq_true, beq_iff_eq] at hlost
    obtain ⟨⟨⟨hc, x, hx, hxo⟩, y, hy, hyn⟩, hmatch⟩ := hlost
    have hside := (ClassesMatched.of_mem_compare hs ht he hc).pairSide hs ht
    have hdx := declares_of_mem_constructors_append_methods hs (hside .old).declares hx
    have hdy := declares_of_mem_constructors_append_methods ht (hside .new).declares hy
    have hold : (Event.removed o place).on .old = some o := rfl
    have hnew : (Event.added n).on .new = some n := rfl
    have hdo : s.Declares o := declares_of_mem_compare hs ht hf hold
    have hdn : t.Declares n := declares_of_mem_compare hs ht hg hnew
    obtain rfl := hdx.eq_of_id hdo hxo
    obtain rfl := hdy.eq_of_id hdn hyn
    exact ⟨c, d, he, hc, x, hx, y, hy, place, hf, hg, hmatch⟩
  · cases hlost

/-- Constructors are matched with constructors and methods with methods, so a removed constructor may
match an added method of the same pair of classes. -/
theorem removed_constructor_matches_added_method :
    ¬∀ (s t : Surface) (filter : Filter), s.Built → t.Built → ∀ c d,
      Event.matched c d ∈ s.compare t filter → c.asClass?.isSome →
      ∀ o ∈ c.constructors ++ c.methods, ∀ n ∈ d.constructors ++ d.methods, ∀ place,
        Event.removed o place ∈ s.compare t filter → Event.added n ∈ s.compare t filter →
        o.signatureMatches n = false := by
  intro h
  have hs : ((Recipe.ofClass [.published ""] []).build 1 "old").Built := ⟨_, _, _, rfl⟩
  have ht : ((Recipe.ofClass [] [.published "C"]).build 2 "new").Built := ⟨_, _, _, rfl⟩
  obtain ⟨c, d, hcd, hc, o, ho, n, hn, place, hremoved, hadded, hmatch⟩ :=
    exists_of_loseMatch .all hs.wellFormed ht.wellFormed (by decide +kernel)
  have hno := h _ _ .all hs ht c d hcd hc o ho n hn place hremoved hadded
  rw [hno] at hmatch
  cases hmatch

end Surface

end ApiSurface
