import ApiSurface.Proofs.Heredity
import ApiSurface.Proofs.Reflexivity

/-! # Lost classes

A class that is gone is not reported if something around it is gone too: that is reported instead. The
walk of the comparison and the rule on removals decide about this apart from each other. The walk picks
the outermost of what is gone, and the rule drops it if it is a stub, whatever is inside it. -/
namespace ApiSurface

open Arena Surface Comparison

/-- The accepted package, or the accepted class in an accepted package, that has the name of an old
package or class. -/
def Surface.successor? (t : Surface) (filter : Filter) (x : Decl) : Option Decl :=
  x.homePackage?.bind fun p => ((t.findPackage? p.name).filter filter).bind fun q =>
    if x.asPackage?.isSome then some q
    else q.classes.find? fun n => filter n && n.name == x.name

/-- The old package or class is gone, and nothing around it is. -/
def Surface.IsOutermostLost (t : Surface) (filter : Filter) (x : Decl) : Prop :=
  t.successor? filter x = none ∧ ∀ y ∈ x.lineage.tail, (t.successor? filter y).isSome

/-- The finding says that a package or a class is gone. -/
def Finding.TellsLoss (f : Finding) : Prop := f.kind = .removedPackage ∨ f.kind = .removedClass

namespace Surface

variable {s t : Surface} {filter : Filter} {c d p q x y : Decl}

theorem successor?_of_package (hp : p.asPackage?.isSome) :
    t.successor? filter p = (t.findPackage? p.name).filter filter := by
  unfold successor?
  rw [homePackage?_of_package hp, Option.bind_some]
  simp only [hp, if_true, Option.bind_fun_some]

theorem successor?_of_class (hc : c.asClass?.isSome) (hhome : c.homePackage? = some p)
    (hq : (t.findPackage? p.name).filter filter = some q) :
    t.successor? filter c = q.classes.find? fun n => filter n && n.name == c.name := by
  unfold successor?
  rw [hhome, Option.bind_some, hq, Option.bind_some, asPackage?_eq_none hc]
  rfl

/-- A class has a successor iff the table of accepted classes knows its name. -/
theorem isSome_successor?_iff (hc : c.asClass?.isSome) (hhome : c.homePackage? = some p)
    (hq : (t.findPackage? p.name).filter filter = some q) :
    (t.successor? filter c).isSome ↔
      ((lastByName (q.classes.filter filter))[c.name]?).isSome := by
  rw [successor?_of_class hc hhome hq, getElem?_lastByName, List.find?_isSome, List.find?_isSome]
  simp only [List.mem_reverse, List.mem_filter, Bool.and_eq_true]
  constructor
  · rintro ⟨n, hn, hf, hname⟩
    exact ⟨n, ⟨hn, hf⟩, hname⟩
  · rintro ⟨n, ⟨hn, hf⟩, hname⟩
    exact ⟨n, hn, hf, hname⟩

/-! ## The outermost loss -/

/-- Around what is gone, or at it, there is something outermost. -/
theorem Declares.exists_outermostLost (hs : s.WellFormed) (hd : s.Declares d)
    (hlost : t.successor? filter d = none) : ∃ x ∈ d.lineage, t.IsOutermostLost filter x := by
  induction d, hd using Declares.outward_induction with | step d hd ih => ?_
  by_cases hall : ∀ y ∈ d.lineage.tail, (t.successor? filter y).isSome
  · exact ⟨d, hd.self_mem_lineage hs, hlost, hall⟩
  · obtain ⟨y, hy, hylost⟩ : ∃ y ∈ d.lineage.tail, t.successor? filter y = none := by
      simpa using hall
    have hymem : y ∈ d.lineage := List.mem_of_mem_tail hy
    obtain ⟨x, hx, houtermost⟩ := ih y (hd.of_mem_lineage hs hymem) (hd.lt_of_mem_tail hs hy) hylost
    exact ⟨x, hd.lineage_subset hs hymem hx, houtermost⟩

theorem Declares.outermostLost_unique (hs : s.WellFormed) (hd : s.Declares d) (hx : x ∈ d.lineage)
    (hy : y ∈ d.lineage) (hxl : t.IsOutermostLost filter x) (hyl : t.IsOutermostLost filter y) :
    x = y := by
  have hinner : ∀ {a b : Decl}, s.Declares b → a ∈ b.lineage → t.IsOutermostLost filter a →
      t.IsOutermostLost filter b → a = b := by
    intro a b hb hab ha hbl
    by_contra hne
    have hsome := hbl.2 a (hb.mem_tail_of_ne hs hab hne)
    rw [ha.1] at hsome
    cases hsome
  rcases hd.lineage_total hs hx hy with h | h
  · exact hinner (hd.of_mem_lineage hs hy) h hxl hyl
  · exact (hinner (hd.of_mem_lineage hs hx) h hyl hxl).symm

/-! ## The walk reports it -/

theorem isWithinUnmatched_eq_false_iff (hs : s.WellFormed) (hd : s.Declares d)
    (hc : d.asClass?.isSome) (hhome : d.homePackage? = some p)
    (hq : (t.findPackage? p.name).filter filter = some q) :
    isWithinUnmatched d (lastByName (q.classes.filter filter)) = false ↔
      ∀ y ∈ d.lineage.tail, (t.successor? filter y).isSome := by
  have hsome : ∀ y ∈ d.lineage.tail, y.asClass?.isSome →
      ((t.successor? filter y).isSome ↔
        (lastByName (q.classes.filter filter)).contains y.name = true) := by
    intro y hy hyc
    obtain ⟨_, hyhome⟩ := hd.belongs_of_mem_lineage hs (.inl hc) (List.mem_of_mem_tail hy)
    rw [isSome_successor?_iff hyc (hyhome.trans hhome) hq, Std.TreeMap.contains_eq_isSome_getElem?]
  have hpackage : ∀ y ∈ d.lineage.tail, y.asPackage?.isSome → (t.successor? filter y).isSome := by
    intro y hy hyp
    obtain ⟨_, hyhome⟩ := hd.belongs_of_mem_lineage hs (.inl hc) (List.mem_of_mem_tail hy)
    rw [homePackage?_of_package hyp, hhome] at hyhome
    cases hyhome
    rw [successor?_of_package hyp, hq]
    rfl
  unfold isWithinUnmatched
  rw [hd.enclosingClasses_eq_filter hs hc, List.any_eq_false]
  constructor
  · intro h y hy
    obtain ⟨hyc | hyp, _⟩ := hd.belongs_of_mem_lineage hs (.inl hc) (List.mem_of_mem_tail hy)
    · have hcontains := h y (List.mem_filter.mpr ⟨hy, hyc⟩)
      exact (hsome y hy hyc).mpr (by simpa using hcontains)
    · exact hpackage y hy hyp
  · intro h y hy
    obtain ⟨hy, hyc⟩ := List.mem_filter.mp hy
    simp [(hsome y hy hyc).mp (h y hy)]

/-- A class is in the list of its package. -/
theorem Declares.mem_classes (hs : s.WellFormed) (hd : s.Declares d) (hc : d.asClass?.isSome)
    (hhome : d.homePackage? = some p) : s.Declares p ∧ p.asPackage?.isSome ∧ d ∈ p.classes := by
  obtain ⟨p', hp', hpackage, hlast⟩ := hd.getLast?_lineage hs (.inl hc)
  rw [hhome] at hp'
  cases hp'
  have hdp := hd.of_mem_lineage hs (List.mem_of_getLast? hlast)
  obtain ⟨info, hinfo⟩ := Option.isSome_iff_exists.mp hc
  rw [hd.homePackage?_of_class hinfo] at hhome
  refine ⟨hdp, hpackage, ?_⟩
  rw [Decl.classes_eq]
  refine (mem_members hs hdp).mpr ⟨hd, ?_⟩
  have hrole : d.item.shape.role = .ofClass info.qualifiedName info.package info.outer :=
    role_of_class hinfo
  simp only [Slot.lists, hrole, (decl?_eq_some hhome).2.1, beq_self_eq_true]

/-- A table of classes of a package finds each of them, because names single them out. -/
theorem Declares.lastByName_classes (hs : s.WellFormed) (hp : s.Declares p) {ds : List Decl}
    (hds : ds ⊆ p.classes) (hd : d ∈ ds) : (lastByName ds)[d.name]? = some d := by
  have hclass : ∀ x ∈ ds, s.Declares x ∧ x.asClass?.isSome := by
    intro x hx
    have hmem : x ∈ p.members .classes := Decl.classes_eq p ▸ hds hx
    exact ⟨((mem_members hs hp).mp hmem).1, (class_of_mem_classes hs hp hmem).1⟩
  have hsome : ((lastByName ds)[d.name]?).isSome := by
    rw [getElem?_lastByName, List.find?_isSome]
    exact ⟨d, List.mem_reverse.mpr hd, beq_iff_eq.mpr rfl⟩
  obtain ⟨d', hd'⟩ := Option.isSome_iff_exists.mp hsome
  obtain ⟨hmem, hname⟩ := lastByName_mem hd'
  obtain ⟨hdecl, hc⟩ := hclass d hd
  obtain ⟨hdecl', hc'⟩ := hclass d' hmem
  rw [hd', hdecl'.eq_of_class_name hs hdecl hc' hc hname]

theorem outermostLost_of_removed (hs : s.WellFormed) (ht : t.WellFormed) (hd : s.Declares d)
    (hsort : d.asClass?.isSome ∨ d.asPackage?.isSome) {place : Option Decl}
    (h : Event.removed d place ∈ s.compare t filter) : t.IsOutermostLost filter d := by
  generalize he : Event.removed d place = e at h
  cases origin_of_mem_compare hs ht h with
  | removedPackage hp hq =>
    cases he
    have hpackage := ((findPackage?_eq_some hs).mp hp).2.1
    refine ⟨(successor?_of_package hpackage).trans hq, fun y hy => ?_⟩
    rw [lineage_of_package hs hd hpackage] at hy
    cases hy
  | removedClass hpq hc hnone hw =>
    cases he
    have hp := (hpq.pairSide hs ht .old).declares
    obtain ⟨hclass, hhome⟩ := class_of_mem_classes hs hp (Decl.classes_eq _ ▸ (lastByName_mem hc).1)
    refine ⟨?_, (isWithinUnmatched_eq_false_iff hs hd hclass hhome hpq.new).mp hw⟩
    rw [← Option.not_isSome_iff_eq_none, isSome_successor?_iff hclass hhome hpq.new, hnone]
    exact Bool.false_ne_true
  | member hcd hm =>
    subst he
    have hslot := (belongs_of_memberEvents (hcd.pairSide hs ht .old) hm rfl).2.2
    rcases hsort with hc | hp
    · rw [homeSlot?_of_asClass? hc] at hslot
      cases hslot
    · rw [homeSlot?_of_asPackage? hp] at hslot
      cases hslot
  | _ => cases he

theorem removed_of_outermostLost (hs : s.WellFormed) (hd : s.Declares d)
    (hsort : d.asClass?.isSome ∨ d.asPackage?.isSome) (h : t.IsOutermostLost filter d) :
    ∃ place, Event.removed d place ∈ s.compare t filter := by
  rcases hsort with hc | hpackage
  · obtain ⟨p, hhome, hpackage, hlast⟩ := hd.getLast?_lineage hs (.inl hc)
    obtain ⟨hp, _, hmem⟩ := hd.mem_classes hs hc hhome
    have htail : p ∈ d.lineage.tail := by
      refine hd.mem_tail_of_ne hs (List.mem_of_getLast? hlast) ?_
      rintro rfl
      rw [asPackage?_eq_none hc] at hpackage
      cases hpackage
    have hkept := h.2 p htail
    rw [successor?_of_package hpackage] at hkept
    obtain ⟨q, hq⟩ := Option.isSome_iff_exists.mp hkept
    have hpq : PackagePair s t filter p q :=
      ⟨(findPackage?_eq_some hs).mpr ⟨hp, hpackage, rfl⟩, hq⟩
    have hw := (isWithinUnmatched_eq_false_iff hs hd hc hhome hq).mpr h.2
    have hold := hp.lastByName_classes hs (List.Subset.refl _) hmem
    have hnew : (lastByName (q.classes.filter filter))[d.name]? = none := by
      rw [← Option.not_isSome_iff_eq_none, ← isSome_successor?_iff hc hhome hq, h.1]
      exact Bool.false_ne_true
    refine ⟨some q, mem_compare_of_pair hs hpq (.inr ?_)⟩
    rw [classEvents_eq]
    refine List.mem_flatMap.mpr ⟨d.name, mem_unionNames.mpr (.inl ?_), ?_⟩
    · exact mem_keys_iff.mpr ⟨d, hold⟩
    · simp [classBlock, hold, hnew, hw]
  · have hfind : s.findPackage? d.name = some d :=
      (findPackage?_eq_some hs).mpr ⟨hd, hpackage, rfl⟩
    have hnone := h.1
    rw [successor?_of_package hpackage] at hnone
    refine ⟨none, ?_⟩
    rw [compare_eq]
    refine List.mem_flatMap.mpr ⟨d.name, mem_unionNames.mpr (.inl ?_), ?_⟩
    · exact List.mem_map_of_mem ((mem_packageDecls hs).mpr ⟨hd, hpackage⟩)
    · simp [packageBlock, hfind, hnone]

end Surface

/-! ## The rule drops stubs -/

namespace RuleContext

variable {context : RuleContext} {severities : SeverityTable} {x : Decl}

theorem removedKind_tellsLoss (hsort : x.asClass?.isSome ∨ x.asPackage?.isSome)
    (place : Option Decl) : ∃ kind, Rules.Presence.removedKind context x place = some kind ∧
      (kind = .removedPackage ∨ kind = .removedClass) := by
  unfold Rules.Presence.removedKind
  rcases hsort with h | h
  · obtain ⟨info, hinfo⟩ := Option.isSome_iff_exists.mp h
    rw [payload_of_asClass? hinfo]
    exact ⟨_, rfl, .inr rfl⟩
  · obtain ⟨info, hinfo⟩ := Option.isSome_iff_exists.mp h
    rw [payload_of_asPackage? hinfo]
    exact ⟨_, rfl, .inl rfl⟩

/-- The loss of something visible is found. -/
theorem exists_finding_of_removed (hsort : x.asClass?.isSome ∨ x.asPackage?.isSome)
    {place : Option Decl} (he : Event.removed x place ∈
      context.oldView.primary.compare context.newView.primary context.filter)
    (hseen : context.wasVisible x = true) : ∃ f ∈ context.allFindings, f.TellsLoss ∧ f.subject = x := by
  obtain ⟨kind, hkind, hloss⟩ := context.removedKind_tellsLoss hsort place
  have hnot : (!x.isEmitted || !context.filter x || x.isEffectively .hidden) = false := by
    unfold wasVisible at hseen
    revert hseen
    cases x.isEmitted <;> cases context.filter x <;> cases x.isEffectively .hidden <;> decide
  obtain ⟨f, hf, rfl, hsubject⟩ : ∃ f, context.findings (.removed x place) = [f] ∧
      f.kind = kind ∧ f.subject = x := by
    change ∃ f, Rules.Presence.removed context x place = [f] ∧ f.kind = kind ∧ f.subject = x
    simp only [Rules.Presence.removed, hnot, hkind]
    exact ⟨_, rfl, rfl, rfl⟩
  refine ⟨f, List.mem_flatMap.mpr ⟨_, he, ?_⟩, hloss, hsubject⟩
  rw [hf]
  exact List.mem_singleton.mpr rfl

/-- What is said to be lost has been removed by the comparison, and is no stub. -/
theorem removed_of_finding {f : Finding} (hf : f ∈ context.allFindings) (hloss : f.TellsLoss) :
    f.subject.isEmitted = true ∧ ∃ place, Event.removed f.subject place ∈
      context.oldView.primary.compare context.newView.primary context.filter := by
  obtain ⟨e, he, hfe⟩ := List.mem_flatMap.mp hf
  have hremoval : f.kind.isRemoval = true := by
    rcases hloss with h | h <;> rw [h] <;> rfl
  obtain ⟨place, rfl⟩ := exists_removed_of_isRemoval hfe hremoval
  refine ⟨?_, place, he⟩
  by_contra hstub
  have hnone : Rules.Presence.removed context f.subject place = [] := by
    unfold Rules.Presence.removed
    simp [hstub]
  change f ∈ Rules.Presence.removed context f.subject place at hfe
  rw [hnone] at hfe
  cases hfe

theorem mem_reports_of_tellsLoss (hpackage : severities .removedPackage ≠ .hidden)
    (hclass : severities .removedClass ≠ .hidden) {f : Finding} (hloss : f.TellsLoss) :
    f ∈ context.reports severities ↔ f ∈ context.allFindings := by
  unfold reports
  rw [List.mem_filter]
  refine and_iff_left ?_
  unfold Finding.isRecorded
  rcases hloss with h | h <;> rw [h] <;> simpa

end RuleContext

/-- A published class that is gone leads to exactly one place where a report is due, at the class or
around it: the outermost package or class that is gone. The check reports a loss there, or anywhere
around the class, iff what stands there is no stub. -/
theorem check_lostClass (context : RuleContext) (hs : context.oldView.primary.Built)
    (ht : context.newView.primary.Built) (hfilter : context.filter = .published)
    {severities : SeverityTable} (hpackage : severities .removedPackage ≠ .hidden)
    (hclass : severities .removedClass ≠ .hidden) {c : Decl}
    (hc : context.oldView.primary.Declares c) (hcc : c.asClass?.isSome)
    (haccept : context.filter c = true)
    (hlost : context.newView.primary.successor? context.filter c = none) :
    (check context.oldView context.newView context.filter severities).issues =
        (context.reports severities).map (Finding.issue severities) ∧
      ∃ x ∈ c.lineage, context.newView.primary.IsOutermostLost context.filter x ∧
        ((∃ f ∈ context.reports severities, f.TellsLoss ∧ f.subject ∈ c.lineage) ↔
          x.isEmitted = true) := by
  have hwf := hs.wellFormed
  have htf := ht.wellFormed
  refine ⟨check_issues context.oldView context.newView context.filter severities, ?_⟩
  obtain ⟨x, hx, hxl⟩ := hc.exists_outermostLost hwf hlost
  obtain ⟨hsort, _⟩ := hc.belongs_of_mem_lineage hwf (.inl hcc) hx
  have hdx := hc.of_mem_lineage hwf hx
  refine ⟨x, hx, hxl, ?_⟩
  constructor
  · rintro ⟨f, hf, hloss, hsubject⟩
    rw [RuleContext.mem_reports_of_tellsLoss hpackage hclass hloss] at hf
    obtain ⟨hemitted, place, he⟩ := RuleContext.removed_of_finding hf hloss
    obtain ⟨hsort', _⟩ := hc.belongs_of_mem_lineage hwf (.inl hcc) hsubject
    have hfl := outermostLost_of_removed hwf htf (hc.of_mem_lineage hwf hsubject) hsort' he
    rwa [hc.outermostLost_unique hwf hx hsubject hxl hfl]
  · intro hemitted
    have hpublished : Filter.published x = true :=
      published_of_mem_lineage hs hc hx (hfilter ▸ haccept)
    have hmethod : x.containingMethod? = none :=
      hsort.elim containingMethod?_of_class containingMethod?_of_package
    have hseen : context.wasVisible x = true := by
      unfold RuleContext.wasVisible
      rw [hemitted, hfilter, hpublished, ((published_iff hmethod).mp hpublished).2.1]
      rfl
    obtain ⟨place, he⟩ := removed_of_outermostLost hwf hdx hsort hxl
    obtain ⟨f, hf, hloss, hsubject⟩ := RuleContext.exists_finding_of_removed hsort he hseen
    exact ⟨f, (RuleContext.mem_reports_of_tellsLoss hpackage hclass hloss).mpr hf, hloss,
      hsubject ▸ hx⟩

/-- A package with a published class inside another one, which may be a stub. -/
def Recipe.nestedPair (isStub : Bool) : Recipe :=
  { calls := [.packageSpec { name := "p", classes := [
      { name := "p.A", modifiers := .ofVisibility .publicAccess, isStub
        nested := [{ name := "p.A.B", modifiers := .ofVisibility .publicAccess }] }] }] }

def Recipe.barePackage : Recipe := { calls := [.package "p" {} false] }

theorem check_lostClass_nestedPair :
    let context := RuleContext.published ((Recipe.nestedPair false).build 1 "old")
      (Recipe.barePackage.build 2 "new")
    ∃ c, context.oldView.primary.decl? ⟨2⟩ = some c ∧
      ∃ x ∈ c.lineage, context.newView.primary.IsOutermostLost context.filter x ∧
        ((∃ f ∈ context.reports .standard, f.TellsLoss ∧ f.subject ∈ c.lineage) ↔
          x.isEmitted = true) := by
  have hfacts : (((Recipe.nestedPair false).build 1 "old").decl? ⟨2⟩).any (fun c =>
      c.id == ⟨2⟩ && c.asClass?.isSome && Filter.published c &&
        ((Recipe.barePackage.build 2 "new").successor? .published c).isNone) = true := by
    decide +kernel
  obtain ⟨c, hc, hfacts⟩ := (Option.any_eq_true _ _).mp hfacts
  simp only [Bool.and_eq_true, beq_iff_eq, Option.isNone_iff_eq_none] at hfacts
  obtain ⟨⟨⟨hid, hclass⟩, haccept⟩, hlost⟩ := hfacts
  refine ⟨c, hc, ?_⟩
  exact (check_lostClass _ ⟨_, _, _, rfl⟩ ⟨_, _, _, rfl⟩ rfl (by decide) (by decide)
    (by rw [Declares, hid]; exact hc) hclass haccept hlost).2

/-- Nothing is said about a class that is gone together with a stub around it. -/
theorem check_lostClass_inStub : ¬∀ (s t : Surface) (c : Decl) (severities : SeverityTable),
    s.Built → t.Built → s.Declares c → c.asClass?.isSome → c.isEmitted = true →
    Filter.published c = true → t.successor? .published c = none →
    (∀ kind, severities kind ≠ .hidden) →
    ∃ issue ∈ (s.check t .published severities).issues,
      (issue.kind = .removedClass ∧ ∃ x ∈ c.selfAndClasses, issue.subject = x.describe) ∨
        issue.kind = .removedPackage ∧ ∃ p, c.homePackage? = some p ∧ issue.subject = p.describe := by
  intro h
  have hfacts : (((Recipe.nestedPair true).build 1 "old").decl? ⟨2⟩).any (fun c =>
      c.id == ⟨2⟩ && c.asClass?.isSome && c.isEmitted && Filter.published c &&
        ((Recipe.barePackage.build 2 "new").successor? .published c).isNone) = true := by
    decide +kernel
  obtain ⟨c, hc, hfacts⟩ := (Option.any_eq_true _ _).mp hfacts
  simp only [Bool.and_eq_true, beq_iff_eq, Option.isNone_iff_eq_none] at hfacts
  obtain ⟨⟨⟨⟨hid, hclass⟩, hemitted⟩, haccept⟩, hlost⟩ := hfacts
  have hsilent : (((Recipe.nestedPair true).build 1 "old").check (Recipe.barePackage.build 2 "new")
      .published .standard).issues = [] := by decide +kernel
  obtain ⟨issue, hissue, _⟩ := h _ _ c .standard ⟨_, _, _, rfl⟩ ⟨_, _, _, rfl⟩
    (by rw [Declares, hid]; exact hc) hclass hemitted haccept hlost (fun kind => by cases kind <;> decide)
  rw [hsilent] at hissue
  cases hissue

end ApiSurface
