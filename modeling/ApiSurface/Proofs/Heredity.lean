import ApiSurface.Filter
import ApiSurface.Proofs.Ancestry
import ApiSurface.Proofs.Stability

/-! # What is around an accepted declaration

A filter is asked about declarations one by one, so it might accept a nested class and reject the class
around it. The filter that selects what is published does not: it asks for the visibility of all classes
around a declaration and for the flags of all that the declaration is in, and packages are public. -/
namespace ApiSurface

open Arena Surface

/-- The filter accepts a declaration only if it accepts all classes around it. -/
def Filter.IsHereditary (filter : Filter) : Prop :=
  ∀ (s : Surface) (d : Decl), s.Built → s.Declares d → filter d = true →
    ∀ c ∈ d.enclosingClasses, filter c = true

namespace Surface

variable {s : Surface} {d p x : Decl}

/-! ## The classes around a declaration -/

/-- The parent of a declaration is its package or the class around it, or the method of a parameter. -/
theorem Declares.around_cases (hs : s.WellFormed) (hd : s.Declares d) (hp : d.parent? = some p) :
    (p.asPackage?.isSome ∧ d.containingMethod? = none ∧ d.containingClass? = none) ∨
      (p.asClass?.isSome ∧ d.containingMethod? = none ∧ d.containingClass? = some p) ∨
      p.containingMethod? = none ∧ d.containingMethod? = some p ∧
        d.containingClass? = p.containingClass? := by
  obtain ⟨q, hdq, hq, _, hholds⟩ := (hd.parent_cases hs).resolve_left fun h => by
    rw [Decl.parent?, h.2] at hp
    cases hp
  cases (hd.parent?_eq hdq hq).symm.trans hp
  cases hdpay : d.item.payload with
  | package info =>
    rw [hdpay] at hholds
    cases hpay : p.item.payload <;> rw [hpay] at hholds <;> cases hholds
  | ofClass info =>
    have hmethod : d.containingMethod? = none := by rw [Decl.containingMethod?, hdpay]
    have hclass := hd.containingClass?_eq hs (by rw [Decl.asClass?, hdpay]; rfl)
    rw [hp, Option.filter_some] at hclass
    rw [hdpay] at hholds
    cases hpay : p.item.payload with
    | package pinfo =>
      have hpackage : p.asPackage?.isSome := by rw [Decl.asPackage?, hpay]; rfl
      rw [asClass?_eq_none hpackage] at hclass
      exact .inl ⟨hpackage, hmethod, hclass⟩
    | ofClass pinfo =>
      have hc : p.asClass?.isSome := by rw [Decl.asClass?, hpay]; rfl
      rw [hc] at hclass
      exact .inr (.inl ⟨hc, hmethod, hclass⟩)
    | _ => rw [hpay] at hholds; cases hholds
  | parameter info =>
    rw [hdpay] at hholds
    have hmethod : d.containingMethod? = some p := by rw [Decl.containingMethod?, hdpay, hp]
    have hclass : d.containingClass? = p.parent? := by
      rw [Decl.containingClass?, hdpay, hp]
      rfl
    cases hpay : p.item.payload with
    | method minfo | constructor minfo =>
      refine .inr (.inr ⟨by rw [Decl.containingMethod?, hpay], hmethod, hclass.trans ?_⟩)
      rw [Decl.containingClass?, hpay]
    | _ => rw [hpay] at hholds; cases hholds
  | method info | constructor info | field info =>
    rw [hdpay] at hholds
    have hmethod : d.containingMethod? = none := by rw [Decl.containingMethod?, hdpay]
    have hclass : d.containingClass? = some p := by rw [Decl.containingClass?, hdpay, hp]
    cases hpay : p.item.payload with
    | ofClass pinfo => exact .inr (.inl ⟨by rw [Decl.asClass?, hpay]; rfl, hmethod, hclass⟩)
    | _ => rw [hpay] at hholds; cases hholds

theorem Declares.mem_selfAndClasses (hs : s.WellFormed) (hd : s.Declares d) :
    x ∈ d.selfAndClasses ↔ x = d ∨ ∃ c, d.containingClass? = some c ∧ x ∈ c.selfAndClasses := by
  rw [hd.selfAndClasses_eq hs, List.mem_cons]
  cases d.containingClass? with
  | none => simp
  | some c => simp

theorem Declares.mem_enclosingClasses (hs : s.WellFormed) (hd : s.Declares d) :
    x ∈ d.enclosingClasses ↔ ∃ c, d.containingClass? = some c ∧ x ∈ c.selfAndClasses := by
  rw [Decl.enclosingClasses, hd.selfAndClasses_eq hs, List.tail_cons]
  cases d.containingClass? with
  | none => simp
  | some c => simp

theorem parent?_of_containingMethod? (h : d.containingMethod? = some x) : d.parent? = some x := by
  unfold Decl.containingMethod? at h
  split at h
  · exact h
  · cases h

theorem containingMethod?_of_class (h : d.asClass?.isSome) : d.containingMethod? = none := by
  obtain ⟨info, hinfo⟩ := Option.isSome_iff_exists.mp h
  rw [Decl.containingMethod?, payload_of_asClass? hinfo]

theorem containingMethod?_of_package (h : d.asPackage?.isSome) : d.containingMethod? = none := by
  obtain ⟨info, hinfo⟩ := Option.isSome_iff_exists.mp h
  rw [Decl.containingMethod?, payload_of_asPackage? hinfo]

theorem containingClass?_of_package (h : d.asPackage?.isSome) : d.containingClass? = none := by
  obtain ⟨info, hinfo⟩ := Option.isSome_iff_exists.mp h
  rw [Decl.containingClass?, payload_of_asPackage? hinfo]

/-- The classes around a declaration are among all that it is declared in. -/
theorem Declares.selfAndClasses_subset (hs : s.WellFormed) (hd : s.Declares d) :
    d.selfAndClasses ⊆ d.lineage := by
  induction d, hd using Declares.outward_induction with | step d hd ih => ?_
  intro x hx
  refine (hd.mem_lineage hs).mpr (((hd.mem_selfAndClasses hs).mp hx).imp_right ?_)
  rintro ⟨c, hc, hx⟩
  rcases hd.parent_cases hs with ⟨hpackage, _⟩ | ⟨p, hdp, hparent, hlt, _⟩
  · rw [containingClass?_of_package hpackage] at hc
    cases hc
  · have hp := hd.parent?_eq hdp hparent
    refine ⟨p, hp, ih p hdp hlt ?_⟩
    rcases hd.around_cases hs hp with ⟨_, _, hnone⟩ | ⟨_, _, hsome⟩ | ⟨_, _, hsame⟩
    · rw [hnone] at hc
      cases hc
    · rw [hsome] at hc
      cases hc
      exact hx
    · exact (hdp.mem_selfAndClasses hs).mpr (.inr ⟨c, hsame.symm.trans hc, hx⟩)

theorem Declares.mem_lineage_of_parent? (hs : s.WellFormed) (hd : s.Declares d) (hp : d.parent? = some p)
    (hx : x ∈ p.lineage) : x ∈ d.lineage :=
  (hd.mem_lineage hs).mpr (.inr ⟨p, hp, hx⟩)

theorem Declares.mem_lineage_of_containingMethod? (hs : s.WellFormed) (hd : s.Declares d)
    (h : d.containingMethod? = some x) : x ∈ d.lineage := by
  have hp := parent?_of_containingMethod? h
  exact hd.mem_lineage_of_parent? hs hp ((hd.parent? hs hp).1.self_mem_lineage hs)

theorem Declares.mem_lineage_of_homeClass? (hs : s.WellFormed) (hd : s.Declares d)
    (h : d.homeClass? = some x) : x ∈ d.lineage := by
  have hparent : ∀ {e y : Decl}, s.Declares e → e.parent? = some y → y ∈ e.lineage := fun he hy =>
    he.mem_lineage_of_parent? hs hy ((he.parent? hs hy).1.self_mem_lineage hs)
  unfold Decl.homeClass? at h
  split at h
  · cases h
  · cases h
    exact hd.self_mem_lineage hs
  · exact hparent hd h
  · exact hparent hd h
  · exact hparent hd h
  · obtain ⟨m, hm, hx⟩ := Option.bind_eq_some_iff.mp h
    exact hd.mem_lineage_of_parent? hs hm (hparent (hd.parent? hs hm).1 hx)

/-- The package of a declaration is among all that it is declared in. -/
theorem Declares.mem_lineage_of_homePackage? (hs : s.WellFormed) (hd : s.Declares d)
    (h : d.homePackage? = some x) : x ∈ d.lineage := by
  have hpackage := h
  unfold Decl.homePackage? at h
  split at h
  · cases h
    exact hd.self_mem_lineage hs
  · obtain ⟨c, hc, hinfo⟩ := Option.bind_eq_some_iff.mp h
    obtain ⟨info, hinfo, _⟩ := Option.bind_eq_some_iff.mp hinfo
    have hclass : c.asClass?.isSome := by rw [hinfo]; rfl
    have hmem := hd.mem_lineage_of_homeClass? hs hc
    obtain ⟨p, hp, _, hlast⟩ := (hd.of_mem_lineage hs hmem).getLast?_lineage hs (.inl hclass)
    cases hpackage.symm.trans (homePackage?_of_homeClass? hp hclass hc)
    exact hd.lineage_subset hs hmem (List.mem_of_getLast? hlast)

/-! ## What is published -/

theorem published_iff (h : d.containingMethod? = none) : Filter.published d = true ↔
    (∀ a ∈ d.selfAndClasses, a.modifiers.visibility.isAccessible = true) ∧
      d.isEffectively .hidden = false ∧ d.isEffectively .removed = false := by
  simp [Filter.published, h, and_assoc]

theorem published_of_containingMethod? (h : d.containingMethod? = some p)
    (hp : p.containingMethod? = none) : Filter.published d = Filter.published p := by
  rw [Filter.published, Filter.published, h, hp]
  rfl

theorem Declares.isEffectively_of_mem_lineage (hs : s.WellFormed) (hd : s.Declares d)
    (hx : x ∈ d.lineage) {flag : Flag} (h : d.isEffectively flag = false) :
    x.isEffectively flag = false := by
  unfold Decl.isEffectively at h ⊢
  rw [List.any_eq_false] at h ⊢
  exact fun a ha => h a (hd.lineage_subset hs hx ha)

/-- One step outwards from what is published comes to something published. -/
theorem published_of_parent (hs : s.Built) (hd : s.Declares d) (hp : d.parent? = some p)
    (h : Filter.published d = true) : Filter.published p = true := by
  have hwf := hs.wellFormed
  obtain ⟨hdp, _⟩ := hd.parent? hwf hp
  have hmem := hd.mem_lineage_of_parent? hwf hp (hdp.self_mem_lineage hwf)
  rcases hd.around_cases hwf hp with ⟨hpackage, hmethod, _⟩ | ⟨hclass, hmethod, hsome⟩ |
    ⟨hnone, hmethod, _⟩
  · obtain ⟨_, hhidden, hremoved⟩ := (published_iff hmethod).mp h
    refine (published_iff (containingMethod?_of_package hpackage)).mpr ⟨fun a ha => ?_,
      hd.isEffectively_of_mem_lineage hwf hmem hhidden,
      hd.isEffectively_of_mem_lineage hwf hmem hremoved⟩
    rw [hdp.selfAndClasses_eq hwf, containingClass?_of_package hpackage] at ha
    rw [List.mem_singleton.mp ha, hs.package_public hdp hpackage]
    rfl
  · obtain ⟨haccessible, hhidden, hremoved⟩ := (published_iff hmethod).mp h
    refine (published_iff (containingMethod?_of_class hclass)).mpr ⟨fun a ha => ?_,
      hd.isEffectively_of_mem_lineage hwf hmem hhidden,
      hd.isEffectively_of_mem_lineage hwf hmem hremoved⟩
    exact haccessible a ((hd.mem_selfAndClasses hwf).mpr (.inr ⟨p, hsome, ha⟩))
  · rwa [published_of_containingMethod? hmethod hnone] at h

/-- What a published declaration is declared in is published. -/
theorem published_of_mem_lineage (hs : s.Built) (hd : s.Declares d) (hx : x ∈ d.lineage)
    (h : Filter.published d = true) : Filter.published x = true := by
  have hwf := hs.wellFormed
  induction d, hd using Declares.outward_induction with | step d hd ih => ?_
  rcases (hd.mem_lineage hwf).mp hx with rfl | ⟨p, hp, hx⟩
  · exact h
  · obtain ⟨hdp, hlt⟩ := hd.parent? hwf hp
    exact ih p hdp hlt hx (published_of_parent hs hd hp h)

end Surface

namespace Filter

theorem all_isHereditary : Filter.all.IsHereditary := fun _ _ _ _ _ _ _ => rfl

theorem published_isHereditary : Filter.published.IsHereditary := by
  intro s d hs hd h c hc
  have hmem := hd.selfAndClasses_subset hs.wellFormed (List.mem_of_mem_tail hc)
  exact published_of_mem_lineage hs hd hmem h

end Filter

end ApiSurface
