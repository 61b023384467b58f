import ApiSurface.Proofs.LostClasses

/-! # Classes are accounted for once

Nested classes are compared by their qualified names like all others, and one that is missing on the
other side is passed over if a class around it is missing too. Of a missing class and the classes around
it the comparison reports exactly one: the outermost that is missing. On the new side this needs a filter
that accepts what is around an accepted class, because only accepted classes take part. -/
namespace ApiSurface

open Arena Surface Comparison

/-- The outermost of a declaration and the classes around it that has a property. -/
def Decl.outermost? (d : Decl) (p : Decl → Bool) : Option Decl := d.selfAndClasses.reverse.find? p

def Decl.hasNamesake (d : Decl) (classes : List Decl) : Bool := classes.any fun c => c.name == d.name

namespace Event

/-- Whether the event says that one of the old declarations has been removed. -/
def removesOneOf (ds : List Decl) : Event → Bool
  | .removed old _ => ds.any fun d => d.id == old.id
  | _ => false

/-- Whether the event says that one of the new declarations has been added. -/
def addsOneOf (ds : List Decl) : Event → Bool
  | .added new => ds.any fun d => d.id == new.id
  | _ => false

end Event

/-- How the events of a comparison speak of the classes of two matched packages. -/
structure ClassesCovered (events : List Event) (filter : Filter) (p q : Decl) : Prop where
  /-- Of an old class without an accepted namesake, and the classes around it, exactly one is removed. -/
  removed : ∀ c ∈ p.classes, c.hasNamesake (q.classes.filter filter) = false →
    ∃ x, c.outermost? (fun y => !y.hasNamesake (q.classes.filter filter)) = some x ∧
      events.filter (Event.removesOneOf c.selfAndClasses) = [.removed x (some q)]
  /-- Of an accepted new class without an old namesake, and the classes around it, exactly one is added. -/
  added : ∀ n ∈ q.classes, filter n = true → n.hasNamesake p.classes = false →
    ∃ x, n.outermost? (fun y => !y.hasNamesake p.classes) = some x ∧
      events.filter (Event.addsOneOf n.selfAndClasses) = [.added x]

namespace Surface

variable {s : Surface} {c d p x : Decl}

/-! ## The outermost class -/

theorem Declares.of_mem_selfAndClasses (hs : s.WellFormed) (hd : s.Declares d)
    (hx : x ∈ d.selfAndClasses) : s.Declares x :=
  hd.of_mem_lineage hs (hd.selfAndClasses_subset hs hx)

/-- What lies around a declaration is not the declaration. -/
theorem Declares.not_mem_enclosingClasses (hs : s.WellFormed) (hd : s.Declares d) :
    d ∉ d.enclosingClasses := by
  intro h
  obtain ⟨c, hc, hmem⟩ := (hd.mem_enclosingClasses hs).mp h
  obtain ⟨hdc, hlt⟩ := hd.containingClass? hs hc
  have hle : d.id.index ≤ c.id.index := by
    by_cases hdc' : d = c
    · rw [hdc']
    · exact Nat.le_of_lt (hdc.lt_of_mem_tail hs
        (hdc.mem_tail_of_ne hs (hdc.selfAndClasses_subset hs hmem) hdc'))
  omega

/-- The outermost class with a property is the one with no other around it. -/
theorem Declares.outermost?_eq_some (hs : s.WellFormed) (hd : s.Declares d) (has : Decl → Bool)
    (hx : x ∈ d.selfAndClasses) :
    d.outermost? has = some x ↔ has x = true ∧ x.enclosingClasses.any has = false := by
  induction d, hd using Declares.outward_induction with | step d hd ih => ?_
  have hself : d.selfAndClasses = d :: d.enclosingClasses := by
    rw [Decl.enclosingClasses, hd.selfAndClasses_eq hs, List.tail_cons]
  have hnot := hd.not_mem_enclosingClasses hs
  have hlast : ∀ y, [d].find? has = some y → y = d := fun y hy =>
    List.mem_singleton.mp (List.mem_of_find?_eq_some hy)
  rw [Decl.outermost?, hself, List.reverse_cons, List.find?_append]
  cases hfind : d.enclosingClasses.reverse.find? has with
  | none =>
    have hall : ∀ y ∈ d.enclosingClasses, has y = false := by
      simpa only [List.find?_eq_none, List.mem_reverse, Bool.not_eq_true] using hfind
    rw [Option.none_or]
    rcases List.mem_cons.mp (hself ▸ hx) with rfl | hx
    · have hany : x.enclosingClasses.any has = false :=
        List.any_eq_false.mpr fun y hy => ne_true_of_eq_false (hall y hy)
      rw [hany, List.find?_singleton]
      cases has x <;> simp
    · refine ⟨fun h => ?_, fun h => ?_⟩
      · rw [hlast x h] at hx
        exact (hnot hx).elim
      · rw [hall x hx] at h
        cases h.1
  | some y =>
    have hy := List.mem_reverse.mp (List.mem_of_find?_eq_some hfind)
    rw [Option.some_or]
    rcases List.mem_cons.mp (hself ▸ hx) with rfl | hx
    · refine ⟨fun h => ?_, fun h => ?_⟩
      · cases h
        exact (hnot hy).elim
      · have hhas : has y = true := List.find?_some hfind
        exact (List.any_eq_false.mp h.2 y hy hhas).elim
    · obtain ⟨c, hc, hx'⟩ := (hd.mem_enclosingClasses hs).mp hx
      obtain ⟨hdc, hlt⟩ := hd.containingClass? hs hc
      have henclosing : d.enclosingClasses = c.selfAndClasses := by
        rw [Decl.enclosingClasses, hd.selfAndClasses_eq hs, List.tail_cons, hc]
        rfl
      rw [henclosing] at hfind
      rw [← ih c hdc hlt hx', Decl.outermost?, hfind]

/-- Of a missing declaration and the classes around it exactly one is missing with nothing missing
around it. -/
theorem Declares.exists_outermost_missing (hs : s.WellFormed) (hd : s.Declares d) {ds : List Decl}
    (h : d.hasNamesake ds = false) :
    ∃ x ∈ d.selfAndClasses, d.outermost? (fun y => !y.hasNamesake ds) = some x ∧
      ∀ y ∈ d.selfAndClasses, (y.hasNamesake ds = false ∧
        y.enclosingClasses.any (fun z => !z.hasNamesake ds) = false ↔ y = x) := by
  have hself : d ∈ d.selfAndClasses := (hd.mem_selfAndClasses hs).mpr (.inl rfl)
  have hsome : (d.outermost? fun y => !y.hasNamesake ds).isSome := by
    rw [Decl.outermost?, List.find?_isSome]
    exact ⟨d, List.mem_reverse.mpr hself, by rw [h]; rfl⟩
  obtain ⟨x, hx⟩ := Option.isSome_iff_exists.mp hsome
  refine ⟨x, List.mem_reverse.mp (List.mem_of_find?_eq_some hx), hx, fun y hy => ?_⟩
  have hiff := hd.outermost?_eq_some hs (fun y => !y.hasNamesake ds) hy
  rw [hx, Option.some.injEq, Bool.not_eq_true'] at hiff
  exact hiff.symm.trans eq_comm

/-- The classes around a class of a package belong to the package. -/
theorem Declares.classes_closed (hs : s.WellFormed) (hp : s.Declares p) (hc : c ∈ p.classes)
    (hx : x ∈ c.selfAndClasses) : x ∈ p.classes := by
  have hmem : c ∈ p.members .classes := Decl.classes_eq p ▸ hc
  have hdc := ((mem_members hs hp).mp hmem).1
  obtain ⟨hclass, hhome⟩ := class_of_mem_classes hs hp hmem
  have hlineage := hdc.selfAndClasses_subset hs hx
  rw [hdc.selfAndClasses_eq_filter hs hclass] at hx
  obtain ⟨_, hxhome⟩ := hdc.belongs_of_mem_lineage hs (.inl hclass) hlineage
  exact ((hdc.of_mem_lineage hs hlineage).mem_classes hs (List.mem_filter.mp hx).2
    (hxhome.trans hhome)).2.2

end Surface

namespace Comparison

variable {s t : Surface} {filter : Filter} {c n p q : Decl}

/-! ## What the comparison reports -/

theorem contains_lastByName (ds : List Decl) (d : Decl) :
    (lastByName ds).contains d.name = d.hasNamesake ds := by
  rw [Std.TreeMap.contains_eq_isSome_getElem?, getElem?_lastByName, List.isSome_find?, List.any_reverse]
  rfl

theorem isWithinUnmatched_eq (ds : List Decl) (d : Decl) :
    isWithinUnmatched d (lastByName ds) = d.enclosingClasses.any fun y => !y.hasNamesake ds := by
  unfold isWithinUnmatched
  simp only [contains_lastByName]

theorem getElem?_lastByName_eq_none (ds : List Decl) (d : Decl) :
    (lastByName ds)[d.name]? = none ↔ d.hasNamesake ds = false := by
  rw [← contains_lastByName, Std.TreeMap.contains_eq_isSome_getElem?, ← Option.not_isSome_iff_eq_none,
    Bool.not_eq_true]

/-- A new package has one partner. -/
theorem PackagePair.old_unique (h : PackagePair s t filter p q) (ht : t.WellFormed) {p' : Decl}
    (h' : PackagePair s t filter p' q) : p = p' := by
  obtain ⟨_, _, hname⟩ := (findPackage?_eq_some ht).mp h.find_new.1
  obtain ⟨_, _, hname'⟩ := (findPackage?_eq_some ht).mp h'.find_new.1
  have hold := h.old
  rw [← hname, hname', h'.old] at hold
  exact (Option.some.inj hold).symm

theorem removed_iff (hs : s.WellFormed) (ht : t.WellFormed) (hpq : PackagePair s t filter p q)
    (hc : c ∈ p.classes) {place : Option Decl} : Event.removed c place ∈ s.compare t filter ↔
      place = some q ∧ c.hasNamesake (q.classes.filter filter) = false ∧
        c.enclosingClasses.any (fun y => !y.hasNamesake (q.classes.filter filter)) = false := by
  have hp : s.Declares p := (hpq.pairSide hs ht .old).declares
  obtain ⟨hclass, hhome⟩ := class_of_mem_classes hs hp (Decl.classes_eq p ▸ hc)
  rw [← isWithinUnmatched_eq, ← getElem?_lastByName_eq_none]
  constructor
  · intro h
    generalize he : Event.removed c place = e at h
    cases origin_of_mem_compare hs ht h with
    | removedPackage hp' =>
      cases he
      have hpackage := ((findPackage?_eq_some hs).mp hp').2.1
      rw [asPackage?_eq_none hclass] at hpackage
      cases hpackage
    | removedClass hpq' hc' hnone hw =>
      cases he
      have hp' := (hpq'.pairSide hs ht .old).declares
      obtain ⟨_, hhome'⟩ := class_of_mem_classes hs hp' (Decl.classes_eq _ ▸ (lastByName_mem hc').1)
      cases hhome.symm.trans hhome'
      cases hpq.new.symm.trans hpq'.new
      exact ⟨rfl, hnone, hw⟩
    | member hcd hm =>
      subst he
      have hslot := (belongs_of_memberEvents (hcd.pairSide hs ht .old) hm rfl).2.2
      rw [homeSlot?_of_asClass? hclass] at hslot
      cases hslot
    | _ => cases he
  · rintro ⟨rfl, hnone, hw⟩
    have hold := hp.lastByName_classes hs (List.Subset.refl _) hc
    refine mem_compare_of_pair hs hpq (.inr ?_)
    rw [classEvents_eq]
    refine List.mem_flatMap.mpr ⟨c.name, mem_unionNames.mpr (.inl (mem_keys_iff.mpr ⟨c, hold⟩)), ?_⟩
    simp [classBlock, hold, hnone, hw]

theorem added_iff (hs : s.WellFormed) (ht : t.WellFormed) (hpq : PackagePair s t filter p q)
    (hn : n ∈ q.classes) : Event.added n ∈ s.compare t filter ↔ filter n = true ∧
      n.hasNamesake p.classes = false ∧
        n.enclosingClasses.any (fun y => !y.hasNamesake p.classes) = false := by
  have hq : t.Declares q := (hpq.pairSide hs ht .new).declares
  obtain ⟨hclass, hhome⟩ := class_of_mem_classes ht hq (Decl.classes_eq q ▸ hn)
  rw [← isWithinUnmatched_eq, ← getElem?_lastByName_eq_none]
  constructor
  · intro h
    generalize he : Event.added n = e at h
    cases origin_of_mem_compare hs ht h with
    | addedPackage _ hq' =>
      cases he
      have hpackage := ((findPackage?_eq_some ht).mp (Option.filter_eq_some_iff.mp hq').1).2.1
      rw [asPackage?_eq_none hclass] at hpackage
      cases hpackage
    | addedClass hpq' hnone hn' hw =>
      cases he
      have hmem := (lastByName_mem hn').1
      have hq' := (hpq'.pairSide hs ht .new).declares
      obtain ⟨_, hhome'⟩ := class_of_mem_classes ht hq'
        (Decl.classes_eq _ ▸ List.mem_of_mem_filter hmem)
      cases hhome.symm.trans hhome'
      cases hpq.old_unique ht hpq'
      exact ⟨(List.mem_filter.mp hmem).2, hnone, hw⟩
    | member hcd hm =>
      subst he
      have hslot := (belongs_of_memberEvents (hcd.pairSide hs ht .new) hm rfl).2.2
      rw [homeSlot?_of_asClass? hclass] at hslot
      cases hslot
    | _ => cases he
  · rintro ⟨haccept, hnone, hw⟩
    have hnew := hq.lastByName_classes ht List.filter_sublist.subset (List.mem_filter.mpr ⟨hn, haccept⟩)
    refine mem_compare_of_pair hs hpq (.inr ?_)
    rw [classEvents_eq]
    refine List.mem_flatMap.mpr ⟨n.name, mem_unionNames.mpr (.inr (mem_keys_iff.mpr ⟨n, hnew⟩)), ?_⟩
    simp [classBlock, hnew, hnone, hw]

/-- Two packages that are matched have the same name, and the filter accepts the new one. -/
theorem packagePair_of_matched (hs : s.WellFormed) (ht : t.WellFormed) (hp : p.asPackage?.isSome)
    (h : Event.matched p q ∈ s.compare t filter) : PackagePair s t filter p q := by
  generalize he : Event.matched p q = e at h
  cases origin_of_mem_compare hs ht h with
  | packages hpq =>
    cases he
    exact hpq
  | classes hcd =>
    cases he
    obtain ⟨_, _, hpq, hcd⟩ := hcd
    have hclass : p.asClass?.isSome := (hcd.home (hpq.pairSide hs ht .old)).1
    rw [asClass?_eq_none hp] at hclass
    cases hclass
  | member hcd hm =>
    subst he
    have hslot : p.homeSlot?.isSome := (belongs_of_memberEvents (hcd.pairSide hs ht .old) hm rfl).2.2
    rw [homeSlot?_of_asPackage? hp] at hslot
    cases hslot
  | _ => cases he

/-- The only event of its sort that is about the declarations `ds` of one side is `e`. -/
theorem filter_eq_singleton (hs : s.WellFormed) (ht : t.WellFormed) {e : Event} {test : Event → Bool}
    (side : Side) {x : Decl} (hx : e.on side = some x) (he : e ∈ s.compare t filter)
    (htest : test e = true) (honly : ∀ f ∈ s.compare t filter, test f = true → f = e) :
    (s.compare t filter).filter test = [e] := by
  have hle : (s.compare t filter).countP test ≤ 1 := by
    refine countP_le_one (pairwise_compare hs ht filter side) fun f hf g hg hft hgt happart => ?_
    rw [honly f hf hft, honly g hg hgt] at happart
    exact happart x x hx hx rfl
  have hmem : e ∈ (s.compare t filter).filter test := List.mem_filter.mpr ⟨he, htest⟩
  have hlen : ((s.compare t filter).filter test).length = 1 := by
    have hpos := List.length_pos_of_mem hmem
    rw [List.countP_eq_length_filter] at hle
    omega
  obtain ⟨f, hf⟩ := List.length_eq_one_iff.mp hlen
  rw [hf] at hmem ⊢
  rw [List.mem_singleton.mp hmem]

/-- Of a lost class and the classes around it only the outermost lost one is removed. -/
theorem PackagePair.removed_once (hs : s.WellFormed) (ht : t.WellFormed)
    (hpq : PackagePair s t filter p q) (hc : c ∈ p.classes)
    (hlost : c.hasNamesake (q.classes.filter filter) = false) :
    ∃ x, c.outermost? (fun y => !y.hasNamesake (q.classes.filter filter)) = some x ∧
      (s.compare t filter).filter (Event.removesOneOf c.selfAndClasses) = [.removed x (some q)] := by
  have hp : s.Declares p := (hpq.pairSide hs ht .old).declares
  have hdc : s.Declares c := ((mem_members hs hp).mp (Decl.classes_eq p ▸ hc)).1
  obtain ⟨x, hx, hout, hiff⟩ := hdc.exists_outermost_missing hs hlost
  have hremoved : ∀ y ∈ c.selfAndClasses, ∀ place, Event.removed y place ∈ s.compare t filter ↔
      place = some q ∧ y = x := by
    intro y hy place
    rw [removed_iff hs ht hpq (hp.classes_closed hs hc hy), hiff y hy]
  refine ⟨x, hout, filter_eq_singleton hs ht .old rfl ((hremoved x hx _).mpr ⟨rfl, rfl⟩) ?_ ?_⟩
  · exact List.any_eq_true.mpr ⟨x, hx, beq_iff_eq.mpr rfl⟩
  · intro f hf htest
    cases f with
    | removed old place =>
      obtain ⟨y, hy, hid⟩ := List.any_eq_true.mp htest
      have hold : (Event.removed old place).on .old = some old := rfl
      have hdold := declares_of_mem_compare hs ht hf hold
      have hdy := hdc.of_mem_selfAndClasses hs hy
      cases hdy.eq_of_id hdold (eq_of_beq hid)
      obtain ⟨rfl, rfl⟩ := (hremoved old hy place).mp hf
      rfl
    | _ => cases htest

/-- Of an accepted class without an old namesake and the classes around it, all of which are accepted,
only the outermost without one is added. -/
theorem PackagePair.added_once (hs : s.WellFormed) (ht : t.WellFormed)
    (hpq : PackagePair s t filter p q) (hn : n ∈ q.classes)
    (haccepted : ∀ y ∈ n.selfAndClasses, filter y = true) (hnew : n.hasNamesake p.classes = false) :
    ∃ x, n.outermost? (fun y => !y.hasNamesake p.classes) = some x ∧
      (s.compare t filter).filter (Event.addsOneOf n.selfAndClasses) = [.added x] := by
  have hq : t.Declares q := (hpq.pairSide hs ht .new).declares
  have hdn : t.Declares n := ((mem_members ht hq).mp (Decl.classes_eq q ▸ hn)).1
  obtain ⟨x, hx, hout, hiff⟩ := hdn.exists_outermost_missing ht hnew
  have hadded : ∀ y ∈ n.selfAndClasses, Event.added y ∈ s.compare t filter ↔ y = x := by
    intro y hy
    rw [added_iff hs ht hpq (hq.classes_closed ht hn hy), and_iff_right (haccepted y hy), hiff y hy]
  refine ⟨x, hout, filter_eq_singleton hs ht .new rfl ((hadded x hx).mpr rfl) ?_ ?_⟩
  · exact List.any_eq_true.mpr ⟨x, hx, beq_iff_eq.mpr rfl⟩
  · intro f hf htest
    cases f with
    | added new =>
      obtain ⟨y, hy, hid⟩ := List.any_eq_true.mp htest
      have hon : (Event.added new).on .new = some new := rfl
      have hdnew := declares_of_mem_compare hs ht hf hon
      have hdy := hdn.of_mem_selfAndClasses ht hy
      cases hdy.eq_of_id hdnew (eq_of_beq hid)
      rw [(hadded new hy).mp hf]
    | _ => cases htest

theorem PackagePair.classesCovered (hs : s.Built) (ht : t.Built) (hfilter : filter.IsHereditary)
    (hpq : PackagePair s t filter p q) : ClassesCovered (s.compare t filter) filter p q where
  removed _ hc hlost := hpq.removed_once hs.wellFormed ht.wellFormed hc hlost
  added n hn haccept hnew := by
    have hwf := ht.wellFormed
    have hq : t.Declares q := (hpq.pairSide hs.wellFormed hwf .new).declares
    have hdn : t.Declares n := ((mem_members hwf hq).mp (Decl.classes_eq q ▸ hn)).1
    refine hpq.added_once hs.wellFormed hwf hn (fun y hy => ?_) hnew
    rcases (hdn.mem_selfAndClasses hwf).mp hy with rfl | ⟨c, hc, hy⟩
    · exact haccept
    · exact hfilter t n ht hdn haccept y ((hdn.mem_enclosingClasses hwf).mpr ⟨c, hc, hy⟩)

end Comparison

/-- In two matched packages every missing class is accounted for by one event about it or a class around
it, as long as the filter accepts what is around an accepted class. The filters that select everything
and what is published do, and the latter accepts the package and the method of what it accepts too. -/
theorem compare_classCoverage :
    (∀ (s t : Surface) (filter : Filter), s.Built → t.Built → filter.IsHereditary →
      ∀ p q, Event.matched p q ∈ s.compare t filter → p.asPackage?.isSome →
        ClassesCovered (s.compare t filter) filter p q) ∧
      Filter.all.IsHereditary ∧ Filter.published.IsHereditary ∧
      ∀ (s : Surface) (d : Decl), s.Built → s.Declares d → Filter.published d = true →
        ∀ x, x ∈ d.enclosingClasses ∨ d.homePackage? = some x ∨ d.containingMethod? = some x →
          Filter.published x = true := by
  refine ⟨fun s t filter hs ht hfilter p q h hp => ?_, Filter.all_isHereditary,
    Filter.published_isHereditary, fun s d hs hd h x hx => ?_⟩
  · exact (packagePair_of_matched hs.wellFormed ht.wellFormed hp h).classesCovered hs ht hfilter
  · have hwf := hs.wellFormed
    refine published_of_mem_lineage hs hd ?_ h
    rcases hx with hx | hx | hx
    · exact hd.selfAndClasses_subset hwf (List.mem_of_mem_tail hx)
    · exact hd.mem_lineage_of_homePackage? hwf hx
    · exact hd.mem_lineage_of_containingMethod? hwf hx

theorem compare_classCoverage_nestedPair :
    let s := (Recipe.nestedPair false).build 1 "old"
    let t := Recipe.barePackage.build 2 "new"
    ∃ p q, s.findPackage? "p" = some p ∧ p.classes.map Decl.name = ["p.A", "p.A.B"] ∧
      ClassesCovered (s.compare t .published) .published p q := by
  intro s t
  have hold : (s.findPackage? "p").any (fun p => p.classes.map Decl.name == ["p.A", "p.A.B"]) = true := by
    decide +kernel
  have hnew : ((t.findPackage? "p").filter Filter.published).isSome := by decide +kernel
  obtain ⟨p, hp, hclasses⟩ := (Option.any_eq_true _ _).mp hold
  obtain ⟨q, hq⟩ := Option.isSome_iff_exists.mp hnew
  have hs : s.Built := ⟨_, _, _, rfl⟩
  have ht : t.Built := ⟨_, _, _, rfl⟩
  obtain ⟨_, hpackage, hname⟩ := (findPackage?_eq_some hs.wellFormed).mp hp
  have hpair : PackagePair s t .published p q := ⟨by rw [hname]; exact hp, by rw [hname]; exact hq⟩
  exact ⟨p, q, hp, eq_of_beq hclasses, compare_classCoverage.1 s t .published hs ht
    Filter.published_isHereditary p q (mem_compare_of_pair hs.wellFormed hpair (.inl rfl)) hpackage⟩

end ApiSurface
