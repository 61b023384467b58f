import ApiSurface.Proofs.Heredity
import ApiSurface.Proofs.Removal

/-! # What issues are about

The filter is applied to the new surface, at the packages, at the classes and at the members, and to the
old one only when something has gone. Parameters are never asked about, since they come with their methods.
All the same every issue is about a declaration that the filter lets through: of the old surface if
something is gone, and of the new one otherwise, whatever the views fall back on. -/
namespace ApiSurface

open Arena Surface

/-- What entitles a check to speak of the subject of a finding. -/
structure Finding.Entitled (context : RuleContext) (f : Finding) : Prop where
  /-- The filter accepts the subject, or its method if it is a parameter. -/
  accepted : context.filter (f.subject.containingMethod?.getD f.subject) = true
  /-- What is gone was there for users to see. -/
  gone : f.kind.isRemoval = true → context.oldView.primary.Declares f.subject ∧
    f.subject.isEmitted = true ∧ f.subject.isEffectively .hidden = false
  /-- All else is said of the new surface. -/
  present : f.kind.isRemoval = false → context.newView.primary.Declares f.subject

namespace Decl

variable {d : Decl}

theorem containingMethod?_eq_none (h : d.asParameter? = none) : d.containingMethod? = none := by
  unfold asParameter? at h
  unfold containingMethod?
  cases hpay : d.item.payload with
  | parameter info => rw [hpay] at h; cases h
  | _ => rfl

theorem asParameter?_of_package (h : d.asPackage?.isSome) : d.asParameter? = none := by
  obtain ⟨info, hinfo⟩ := Option.isSome_iff_exists.mp h
  rw [asParameter?, payload_of_asPackage? hinfo]

theorem asParameter?_of_class (h : d.asClass?.isSome) : d.asParameter? = none := by
  obtain ⟨info, hinfo⟩ := Option.isSome_iff_exists.mp h
  rw [asParameter?, payload_of_asClass? hinfo]

end Decl

/-- What is published comes with its parameters. -/
theorem Surface.Declares.published_getD {s : Surface} {d : Decl} (hs : s.WellFormed) (hd : s.Declares d) :
    Filter.published (d.containingMethod?.getD d) = Filter.published d := by
  cases hm : d.containingMethod? with
  | none => rfl
  | some m =>
    rcases hd.around_cases hs (parent?_of_containingMethod? hm) with ⟨_, hnone, _⟩ | ⟨_, hnone, _⟩ |
      ⟨hmethod, _, _⟩
    · cases hm.symm.trans hnone
    · cases hm.symm.trans hnone
    · exact (published_of_containingMethod? hm hmethod).symm

namespace Comparison

variable {s t : Surface} {filter : Filter} {e : Event} {c d n : Decl}

/-- A parameter that is met comes with a method that the filter accepts. -/
theorem method_accepted_of_memberEvents (ht : t.WellFormed) (hd : t.Declares d)
    (he : e ∈ memberEvents filter c d) (hn : e.on .new = some n) (hp : n.asParameter?.isSome) :
    ∃ m, n.containingMethod? = some m ∧ filter m = true := by
  have hmethods : ∀ {role slot}, MemberRole role slot →
      e ∈ methodEvents d (c.members slot) ((d.members slot).filter filter) →
      ∃ m, n.containingMethod? = some m ∧ filter m = true := by
    intro role slot hslot he
    have hno : n ∉ d.members slot := fun hmem => by
      rw [asParameter?_of_member ht hd hslot hmem] at hp
      cases hp
    rcases methodEvents_cases he with ⟨a, _, b, hb, _, rfl | ⟨x, y, hxy, rfl⟩⟩ | ⟨_, _, rfl⟩ |
      ⟨b, hb, rfl⟩
    · cases hn
      exact (hno (List.mem_of_mem_filter hb)).elim
    · cases hn
      obtain ⟨hb, hf⟩ := List.mem_filter.mp hb
      rw [Decl.parameters_eq, Decl.parameters_eq] at hxy
      exact ⟨b, containingMethod?_of_parameter ht ((mem_members ht hd).mp hb).1
        (List.of_mem_zip hxy).2, hf⟩
    · cases hn
    · cases hn
      exact (hno (List.mem_of_mem_filter hb)).elim
  rcases mem_memberEvents.mp he with he | he | he
  · exact hmethods .constructor he
  · exact hmethods .method he
  · obtain ⟨name, he⟩ := mem_fieldEvents.mp he
    have hmem := List.mem_of_mem_filter (on_fieldBlock he hn).1
    rw [asParameter?_of_member ht hd .field hmem] at hp
    cases hp

theorem method_accepted_of_mem_compare (hs : s.WellFormed) (ht : t.WellFormed)
    (h : e ∈ s.compare t filter) (hn : e.on .new = some n) (hp : n.asParameter?.isSome) :
    ∃ m, n.containingMethod? = some m ∧ filter m = true := by
  have hpackage : n.asPackage?.isSome → False := fun h => by
    rw [Decl.asParameter?_of_package h] at hp
    cases hp
  have hclass : n.asClass?.isSome → False := fun h => by
    rw [Decl.asParameter?_of_class h] at hp
    cases hp
  cases origin_of_mem_compare hs ht h with
  | packages hpq =>
    cases hn
    exact (hpackage ((findPackage?_eq_some ht).mp hpq.find_new.1).2.1).elim
  | removedPackage => cases hn
  | addedPackage _ hq =>
    cases hn
    exact (hpackage ((findPackage?_eq_some ht).mp (Option.filter_eq_some_iff.mp hq).1).2.1).elim
  | classes hcd =>
    cases hn
    obtain ⟨_, _, hpq, hcd⟩ := hcd
    exact (hclass (hcd.home (hpq.pairSide hs ht .new)).1).elim
  | removedClass => cases hn
  | addedClass hpq _ hd _ =>
    cases hn
    have hmem := List.mem_of_mem_filter (lastByName_mem hd).1
    rw [Decl.classes_eq] at hmem
    exact (hclass (class_of_mem_classes ht (hpq.pairSide hs ht .new).declares hmem).1).elim
  | member hcd he => exact method_accepted_of_memberEvents ht (hcd.pairSide hs ht .new).declares he hn hp

/-- The filter accepts what is met of the new surface, or the method of a parameter that is met. -/
theorem entitled_of_mem_compare (hs : s.WellFormed) (ht : t.WellFormed) (h : e ∈ s.compare t filter)
    (hn : e.on .new = some n) : filter (n.containingMethod?.getD n) = true := by
  cases hp : n.asParameter? with
  | none =>
    rw [Decl.containingMethod?_eq_none hp, Option.getD_none]
    exact accepted_of_mem_compare hs ht h hn hp
  | some info =>
    obtain ⟨m, hm, hf⟩ := method_accepted_of_mem_compare hs ht h hn (Option.isSome_of_mem hp)
    rw [hm, Option.getD_some]
    exact hf

end Comparison

namespace RuleContext

variable {context : RuleContext} {e : Event} {f : Finding}

/-- What is not gone is said of the new side of its event. -/
theorem on_new_of_mem_findings (hf : f ∈ context.findings e) (hkind : f.kind.isRemoval = false) :
    e.on .new = some f.subject := by
  cases e with
  | matched old new =>
    rw [(Rules.Matched.findings_changesOf context old new f hf).1]
    rfl
  | added new =>
    rw [(Rules.Presence.mem_added hf).1]
    rfl
  | removed old place =>
    rw [(isRemoval_of_removedKind (mem_removed hf).2.2).1] at hkind
    cases hkind

theorem entitled_of_mem_findings (hs : context.oldView.primary.WellFormed)
    (ht : context.newView.primary.WellFormed)
    (he : e ∈ context.oldView.primary.compare context.newView.primary context.filter)
    (hf : f ∈ context.findings e) : f.Entitled context := by
  cases hkind : f.kind.isRemoval with
  | false =>
    have hn := on_new_of_mem_findings hf hkind
    exact
      { accepted := Comparison.entitled_of_mem_compare hs ht he hn
        gone := fun h => nomatch hkind.symm.trans h
        present := fun _ => Comparison.declares_of_mem_compare hs ht he hn }
  | true =>
    obtain ⟨place, rfl⟩ := exists_removed_of_isRemoval hf hkind
    obtain ⟨_, hvisible, hremoved⟩ := mem_removed hf
    obtain ⟨hshown, hhidden⟩ := Bool.and_eq_true_iff.mp hvisible
    obtain ⟨hemitted, haccepted⟩ := Bool.and_eq_true_iff.mp hshown
    have hmethod := Decl.containingMethod?_eq_none (isRemoval_of_removedKind hremoved).2
    have hon : Event.on .old (.removed f.subject place) = some f.subject := rfl
    exact
      { accepted := by rw [hmethod, Option.getD_none]; exact haccepted
        gone := fun _ => ⟨Comparison.declares_of_mem_compare hs ht he hon, hemitted,
          Bool.not_eq_eq_eq_not.mp hhidden⟩
        present := fun h => nomatch hkind.symm.trans h }

end RuleContext

namespace Finding.Entitled

variable {context : RuleContext} {f : Finding}

/-- The subject belongs to the primary surface of one of the views. -/
theorem declares (h : f.Entitled context) :
    context.oldView.primary.Declares f.subject ∨ context.newView.primary.Declares f.subject := by
  cases hkind : f.kind.isRemoval with
  | true => exact .inl (h.gone hkind).1
  | false => exact .inr (h.present hkind)

/-- A filter that accepts whatever comes with an accepted declaration accepts the subject itself. -/
theorem filter_subject (h : f.Entitled context) (hs : context.oldView.primary.Built)
    (ht : context.newView.primary.Built) (hfilter : context.filter = .all ∨ context.filter = .published) :
    context.filter f.subject = true := by
  rcases hfilter with hall | hpublished
  · rw [hall]
    rfl
  · have haccepted := h.accepted
    rw [hpublished] at haccepted ⊢
    rw [← haccepted]
    rcases h.declares with hd | hd
    · exact (hd.published_getD hs.wellFormed).symm
    · exact (hd.published_getD ht.wellFormed).symm

/-- No subject belongs to a surface that was loaded apart from the two primary ones. -/
theorem not_declares (h : f.Entitled context) {fallback : Surface}
    (hold : fallback.serial ≠ context.oldView.primary.serial)
    (hnew : fallback.serial ≠ context.newView.primary.serial) : ¬fallback.Declares f.subject := by
  intro hdeclares
  rcases h.declares with hd | hd
  · exact hold (congrArg Surface.serial (hdeclares.surface.symm.trans hd.surface))
  · exact hnew (congrArg Surface.serial (hdeclares.surface.symm.trans hd.surface))

end Finding.Entitled

/-- Every issue is the issue of a finding whose subject the filter accepts, as such or by its method, and
which belongs to the old primary surface if the issue says that something is gone and to the new one
otherwise. What is gone was emitted and not hidden. -/
theorem check_subjects (old new : View) (hs : old.primary.Built) (ht : new.primary.Built) (filter : Filter)
    (severities : SeverityTable) :
    let context : RuleContext := { oldView := old, newView := new, filter }
    (check old new filter severities).issues =
        (context.reports severities).map (Finding.issue severities) ∧
      ∀ f ∈ context.reports severities, f.Entitled context ∧
        (filter = .all ∨ filter = .published → filter f.subject = true) ∧
        ∀ fallback ∈ old.fallbacks ++ new.fallbacks, fallback.serial ≠ old.primary.serial →
          fallback.serial ≠ new.primary.serial → ¬fallback.Declares f.subject := by
  refine ⟨check_issues old new filter severities, fun f hf => ?_⟩
  obtain ⟨e, he, hf⟩ := List.mem_flatMap.mp (List.mem_of_mem_filter hf)
  have hentitled := RuleContext.entitled_of_mem_findings hs.wellFormed ht.wellFormed he hf
  exact ⟨hentitled, hentitled.filter_subject hs ht, fun _ _ => hentitled.not_declares⟩

/-- A class with a field, and a method with one parameter of the given name. -/
def Recipe.ofParameter (name : String) (fields : List FieldSpec) : Recipe :=
  { calls := [.packageSpec { name := "p", classes := [
      { name := "p.C", modifiers := .ofVisibility .publicAccess, fields
        methods := [{ MethodSpec.published "m" with
          parameters := [{ name := some name, type := ⟨"int"⟩ }] }] }] }] }

/-- A parameter that is called `y` now: the filter rejects what is called so, but accepts the method. -/
theorem check_subjects_renamedParameter :
    let old := (Recipe.ofParameter "x" [.published "f" ⟨"int"⟩] |>.build 1 "old").alone
    let new := (Recipe.ofParameter "y" [] |>.build 2 "new").alone
    let other := Recipe.ofParameter "z" [] |>.build 3 "other"
    let context : RuleContext :=
      { oldView := old.extend [other], newView := new.extend [other], filter := .denying ["y"] }
    (context.reports .standard).map (fun f => (f.kind, f.subject.describe, context.filter f.subject)) =
        [(.parameterNameChange, "parameter y in p.C.m(int)", false),
          (.removedField, "field p.C.f", true)] ∧
      ∀ f ∈ context.reports .standard, f.Entitled context ∧ ¬other.Declares f.subject := by
  refine ⟨by decide +kernel, fun f hf => ?_⟩
  obtain ⟨hentitled, _, hother⟩ := (check_subjects _ _ ⟨_, _, _, rfl⟩ ⟨_, _, _, rfl⟩ _ _).2 f hf
  exact ⟨hentitled, hother _ (List.mem_append_left _ (List.mem_singleton.mpr rfl)) (by decide) (by decide)⟩

end ApiSurface
