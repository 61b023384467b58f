import ApiSurface.Proofs.Declarations

/-! # What a declaration is declared in

What a declaration is declared in has a smaller id. So the walks along parents and along classes come to
their end before their bounds do, and each of them is the declaration followed by the walk from the next
one. The walk from a class goes through the classes around it and ends in its package. -/
namespace ApiSurface

open Arena

namespace Decl

/-- A walk to ever smaller ids does not depend on its bound. -/
theorem walk_bound {next : Decl → Option Decl} {P : Decl → Prop}
    (hdown : ∀ a b, P a → next a = some b → P b ∧ b.id.index < a.id.index) {m n : Nat} {d : Decl}
    (hd : P d) (hm : d.id.index < m) (hn : d.id.index < n) : walk next m d = walk next n d := by
  induction m generalizing n d with
  | zero => omega
  | succ m ih =>
    cases n with
    | zero => omega
    | succ n =>
      rw [walk, walk]
      cases hnext : next d with
      | none => rfl
      | some b =>
        obtain ⟨hb, hlt⟩ := hdown d b hd hnext
        exact congrArg (d :: ·) (ih hb (by omega) (by omega))

theorem walk_cons {next : Decl → Option Decl} {P : Decl → Prop}
    (hdown : ∀ a b, P a → next a = some b → P b ∧ b.id.index < a.id.index) {d : Decl} (hd : P d) :
    walk next (d.id.index + 1) d =
      d :: ((next d).map fun b => walk next (b.id.index + 1) b).getD [] := by
  rw [walk]
  cases hnext : next d with
  | none => rfl
  | some b =>
    obtain ⟨hb, hlt⟩ := hdown d b hd hnext
    simp only [walk_bound hdown hb hlt (Nat.lt_succ_self _), Option.map_some, Option.getD_some]

end Decl

/-- Whether an item of the second sort may be declared right inside one of the first sort. -/
def Payload.mayHold : Payload → Payload → Bool
  | .package _, .ofClass _ | .ofClass _, .ofClass _ => true
  | .ofClass _, .constructor _ | .ofClass _, .method _ | .ofClass _, .field _ => true
  | .constructor _, .parameter _ | .method _, .parameter _ => true
  | _, _ => false

namespace Surface

variable {s : Surface} {c d p x y : Decl}

/-! ## One step outwards -/

theorem payload_of_asClass? {info : ClassInfo} (h : d.asClass? = some info) :
    d.item.payload = .ofClass info := by
  unfold Decl.asClass? at h
  cases hpay : d.item.payload with
  | ofClass info' => rw [hpay] at h; cases h; rfl
  | _ => simp [hpay] at h

theorem role_of_class {info : ClassInfo} (h : d.asClass? = some info) :
    d.item.payload.role = .ofClass info.qualifiedName info.package info.outer := by
  rw [payload_of_asClass? h]
  rfl

theorem payload_of_asPackage? {info : PackageInfo} (h : d.asPackage? = some info) :
    d.item.payload = .package info := by
  unfold Decl.asPackage? at h
  cases hpay : d.item.payload with
  | package info' => rw [hpay] at h; cases h; rfl
  | _ => simp [hpay] at h

theorem asPackage?_eq_none (h : d.asClass?.isSome) : d.asPackage? = none := by
  obtain ⟨info, hinfo⟩ := Option.isSome_iff_exists.mp h
  rw [Decl.asPackage?, payload_of_asClass? hinfo]

theorem asClass?_eq_none (h : d.asPackage?.isSome) : d.asClass? = none := by
  obtain ⟨info, hinfo⟩ := Option.isSome_iff_exists.mp h
  rw [Decl.asClass?, payload_of_asPackage? hinfo]

theorem asClass?_of_role {name : String} {package : ItemId} {outer : Option ItemId}
    (h : d.item.payload.role = .ofClass name package outer) :
    ∃ info, d.asClass? = some info ∧ info.package = package := by
  unfold Decl.asClass?
  cases hpay : d.item.payload <;> rw [hpay] at h <;> cases h
  exact ⟨_, rfl, rfl⟩

/-- A class is declared in its package, or else in a class of the same package. -/
theorem Declares.class_cases (hs : s.WellFormed) (hd : s.Declares d) {info : ClassInfo}
    (hinfo : d.asClass? = some info) :
    (∃ p, s.Declares p ∧ p.asPackage?.isSome ∧ p.id.index < d.id.index ∧
      d.item.parent = some p.id ∧ info.outer = none ∧ info.package = p.id) ∨
    ∃ c outer, s.Declares c ∧ c.asClass? = some outer ∧ c.id.index < d.id.index ∧
      d.item.parent = some c.id ∧ info.outer = some c.id ∧ info.package = outer.package := by
  have hrole : d.item.shape.role = .ofClass info.qualifiedName info.package info.outer :=
    role_of_class hinfo
  have hplaced := (hd.placed hs).2
  simp only [hrole] at hplaced
  obtain ⟨hparent, hlt, ⟨name, hpackage⟩, houter⟩ := hplaced
  cases ho : info.outer with
  | none =>
    obtain ⟨p, _, hdp, hid, hr⟩ := Declares.of_roleAt hpackage
    rw [ho, Option.getD_none, ← hid] at hparent
    exact .inl ⟨p, hdp, (payload_of_role_package hr).1, hid ▸ hlt, hparent, rfl, hid.symm⟩
  | some o =>
    obtain ⟨hlt', name', outer', hclass⟩ := houter o ho
    obtain ⟨c, _, hdc, hid, hr⟩ := Declares.of_roleAt hclass
    rw [ho, Option.getD_some, ← hid] at hparent
    obtain ⟨outer, hasClass, hpkg⟩ := asClass?_of_role hr
    exact .inr ⟨c, outer, hdc, hasClass, hid ▸ hlt', hparent, congrArg some hid.symm, hpkg.symm⟩

/-- A package is declared in nothing, and everything else in an earlier item of the right sort. -/
theorem Declares.parent_cases (hs : s.WellFormed) (hd : s.Declares d) :
    (d.asPackage?.isSome ∧ d.item.parent = none) ∨
      ∃ p, s.Declares p ∧ d.item.parent = some p.id ∧ p.id.index < d.id.index ∧
        p.item.payload.mayHold d.item.payload = true := by
  have hplaced := (hd.placed hs).2
  have hrole : d.item.shape.role = d.item.payload.role := rfl
  have hparent : d.item.shape.parent = d.item.parent := rfl
  cases hpay : d.item.payload with
  | package info =>
    simp only [hrole, hpay, Payload.role] at hplaced
    refine .inl ⟨?_, hplaced⟩
    rw [Decl.asPackage?, hpay]
    rfl
  | ofClass info =>
    have hinfo : d.asClass? = some info := by rw [Decl.asClass?, hpay]
    rcases hd.class_cases hs hinfo with ⟨p, hdp, hpackage, hlt, hp, _⟩ | ⟨c, outer, hdc, hc, hlt, hp, _⟩
    · obtain ⟨pinfo, hpinfo⟩ := Option.isSome_iff_exists.mp hpackage
      exact .inr ⟨p, hdp, hp, hlt, by rw [payload_of_asPackage? hpinfo]; rfl⟩
    · exact .inr ⟨c, hdc, hp, hlt, by rw [payload_of_asClass? hc]; rfl⟩
  | parameter info =>
    simp only [hrole, hpay, Payload.role] at hplaced
    obtain ⟨owner, hp, hlt, hmethod⟩ := hplaced
    have hfound : ∃ m, s.Declares m ∧ m.id = owner ∧
        (m.item.payload.role = .method ∨ m.item.payload.role = .constructor) := by
      rcases hmethod with hr | hr
      · obtain ⟨m, _, hdm, hid, hr⟩ := Declares.of_roleAt hr
        exact ⟨m, hdm, hid, .inl hr⟩
      · obtain ⟨m, _, hdm, hid, hr⟩ := Declares.of_roleAt hr
        exact ⟨m, hdm, hid, .inr hr⟩
    obtain ⟨m, hdm, rfl, hr⟩ := hfound
    refine .inr ⟨m, hdm, hp, by omega, ?_⟩
    cases hm : m.item.payload <;> simp [hm, Payload.role] at hr <;> rfl
  | method info | constructor info | field info =>
    simp only [hrole, hpay, Payload.role] at hplaced
    obtain ⟨owner, package, hp, hlt, name, outer, hclass⟩ := hplaced
    obtain ⟨c, _, hdc, rfl, hr⟩ := Declares.of_roleAt hclass
    refine .inr ⟨c, hdc, hp, hlt, ?_⟩
    cases hc : c.item.payload <;> rw [hc] at hr <;> cases hr
    rfl

theorem Declares.parent?_eq (hd : s.Declares d) (hp : s.Declares p)
    (h : d.item.parent = some p.id) : d.parent? = some p := by
  rw [Decl.parent?, h, hd.surface]
  exact hp

theorem Declares.parent? (hs : s.WellFormed) (hd : s.Declares d) (h : d.parent? = some p) :
    s.Declares p ∧ p.id.index < d.id.index := by
  rcases hd.parent_cases hs with ⟨_, hnone⟩ | ⟨q, hdq, hq, hlt, _⟩
  · rw [Decl.parent?, hnone] at h
    cases h
  · rw [hd.parent?_eq hdq hq] at h
    cases h
    exact ⟨hdq, hlt⟩

/-- The class around a class is its parent, unless that is its package. -/
theorem Declares.containingClass?_eq (hs : s.WellFormed) (hd : s.Declares d)
    (hc : d.asClass?.isSome) :
    d.containingClass? = d.parent?.filter fun p => p.asClass?.isSome := by
  obtain ⟨info, hinfo⟩ := Option.isSome_iff_exists.mp hc
  have houter : d.containingClass? = info.outer.bind s.decl? := by
    rw [Decl.containingClass?, payload_of_asClass? hinfo, hd.surface]
  rw [houter]
  rcases hd.class_cases hs hinfo with
    ⟨p, hdp, hpackage, _, hp, ho, _⟩ | ⟨c, outer, hdc, hclass, _, hp, ho, _⟩
  · rw [ho, hd.parent?_eq hdp hp, Option.filter_some, asClass?_eq_none hpackage]
    rfl
  · rw [ho, hd.parent?_eq hdc hp, Option.filter_some, hclass]
    exact hdc

theorem Declares.containingClass? (hs : s.WellFormed) (hd : s.Declares d)
    (h : d.containingClass? = some c) : s.Declares c ∧ c.id.index < d.id.index := by
  cases hpay : d.item.payload with
  | package info =>
    simp only [Decl.containingClass?, hpay] at h
    cases h
  | ofClass info =>
    rw [hd.containingClass?_eq hs (by rw [Decl.asClass?, hpay]; rfl)] at h
    exact hd.parent? hs (Option.filter_eq_some_iff.mp h).1
  | parameter info =>
    simp only [Decl.containingClass?, hpay] at h
    obtain ⟨m, hm, hc⟩ := Option.bind_eq_some_iff.mp h
    obtain ⟨hdm, hlt⟩ := hd.parent? hs hm
    obtain ⟨hdc, hlt'⟩ := hdm.parent? hs hc
    exact ⟨hdc, by omega⟩
  | _ =>
    simp only [Decl.containingClass?, hpay] at h
    exact hd.parent? hs h

/-! ## Whole walks -/

theorem Declares.lineage_eq (hs : s.WellFormed) (hd : s.Declares d) :
    d.lineage = d :: (d.parent?.map Decl.lineage).getD [] :=
  Decl.walk_cons (fun _ _ ha h => ha.parent? hs h) hd

theorem Declares.selfAndClasses_eq (hs : s.WellFormed) (hd : s.Declares d) :
    d.selfAndClasses = d :: (d.containingClass?.map Decl.selfAndClasses).getD [] :=
  Decl.walk_cons (fun _ _ ha h => ha.containingClass? hs h) hd

/-- An induction from what a declaration is declared in to the declaration. -/
@[elab_as_elim]
theorem Declares.outward_induction {motive : (d : Decl) → s.Declares d → Prop}
    (step : ∀ d hd, (∀ p hp, p.id.index < d.id.index → motive p hp) → motive d hd) (d : Decl)
    (hd : s.Declares d) : motive d hd := by
  induction hn : d.id.index using Nat.strong_induction_on generalizing d with
  | _ n ih => exact step d hd fun p hp hlt => ih _ (hn ▸ hlt) p hp rfl

theorem Declares.mem_lineage (hs : s.WellFormed) (hd : s.Declares d) :
    x ∈ d.lineage ↔ x = d ∨ ∃ p, d.parent? = some p ∧ x ∈ p.lineage := by
  rw [hd.lineage_eq hs, List.mem_cons]
  cases d.parent? with
  | none => simp
  | some p => simp

/-- What a declaration is declared in is declared in the surface. -/
theorem Declares.of_mem_lineage (hs : s.WellFormed) (hd : s.Declares d) (hx : x ∈ d.lineage) :
    s.Declares x := by
  induction d, hd using Declares.outward_induction with | step d hd ih => ?_
  rcases (hd.mem_lineage hs).mp hx with rfl | ⟨p, hp, hx⟩
  · exact hd
  · obtain ⟨hdp, hlt⟩ := hd.parent? hs hp
    exact ih p hdp hlt hx

/-- The walk from something that a walk comes through is a part of it. -/
theorem Declares.lineage_subset (hs : s.WellFormed) (hd : s.Declares d) (hx : x ∈ d.lineage) :
    x.lineage ⊆ d.lineage := by
  induction d, hd using Declares.outward_induction with | step d hd ih => ?_
  intro y hy
  rcases (hd.mem_lineage hs).mp hx with rfl | ⟨p, hp, hx⟩
  · exact hy
  · obtain ⟨hdp, hlt⟩ := hd.parent? hs hp
    exact (hd.mem_lineage hs).mpr (.inr ⟨p, hp, ih p hdp hlt hx hy⟩)

/-- Of two declarations that a walk comes through one is declared in the other. -/
theorem Declares.lineage_total (hs : s.WellFormed) (hd : s.Declares d) (hx : x ∈ d.lineage)
    (hy : y ∈ d.lineage) : x ∈ y.lineage ∨ y ∈ x.lineage := by
  induction d, hd using Declares.outward_induction with | step d hd ih => ?_
  rcases (hd.mem_lineage hs).mp hx with rfl | ⟨p, hp, hx'⟩
  · exact .inr hy
  · rcases (hd.mem_lineage hs).mp hy with rfl | ⟨p', hp', hy'⟩
    · exact .inl hx
    · rw [hp] at hp'
      cases hp'
      obtain ⟨hdp, hlt⟩ := hd.parent? hs hp
      exact ih p hdp hlt hx' hy'

theorem Declares.self_mem_lineage (hs : s.WellFormed) (hd : s.Declares d) : d ∈ d.lineage :=
  (hd.mem_lineage hs).mpr (.inl rfl)

/-- What lies around a declaration has a smaller id. -/
theorem Declares.lt_of_mem_tail (hs : s.WellFormed) (hd : s.Declares d)
    (hx : x ∈ d.lineage.tail) : x.id.index < d.id.index := by
  induction d, hd using Declares.outward_induction with | step d hd ih => ?_
  rw [hd.lineage_eq hs, List.tail_cons] at hx
  cases hp : d.parent? with
  | none => rw [hp] at hx; cases hx
  | some p =>
    rw [hp] at hx
    obtain ⟨hdp, hlt⟩ := hd.parent? hs hp
    rcases (hdp.mem_lineage hs).mp hx with rfl | ⟨q, hq, hx'⟩
    · exact hlt
    · have htail : x ∈ p.lineage.tail := by
        rw [hdp.lineage_eq hs, List.tail_cons, hq]
        exact hx'
      exact Nat.lt_trans (ih p hdp hlt htail) hlt

theorem Declares.mem_tail_of_ne (hs : s.WellFormed) (hd : s.Declares d) (hx : x ∈ d.lineage)
    (hne : x ≠ d) : x ∈ d.lineage.tail := by
  rw [hd.lineage_eq hs] at hx ⊢
  exact (List.mem_cons.mp hx).resolve_left hne

/-! ## The walk from a class -/

theorem lineage_of_package (hs : s.WellFormed) (hp : s.Declares p) (h : p.asPackage?.isSome) :
    p.lineage = [p] := by
  obtain ⟨info, hinfo⟩ := Option.isSome_iff_exists.mp h
  have hnone : p.parent? = none := by
    rcases hp.parent_cases hs with ⟨_, hnone⟩ | ⟨q, _, _, _, hholds⟩
    · rw [Decl.parent?, hnone]
      rfl
    · rw [payload_of_asPackage? hinfo] at hholds
      cases hq : q.item.payload <;> rw [hq] at hholds <;> cases hholds
  rw [hp.lineage_eq hs, hnone]
  rfl

theorem homePackage?_of_package (h : p.asPackage?.isSome) : p.homePackage? = some p := by
  obtain ⟨info, hinfo⟩ := Option.isSome_iff_exists.mp h
  rw [Decl.homePackage?, payload_of_asPackage? hinfo]

theorem Declares.homePackage?_of_class (hd : s.Declares d) {info : ClassInfo}
    (hinfo : d.asClass? = some info) : d.homePackage? = s.decl? info.package := by
  simp only [Decl.homePackage?, Decl.homeClass?, payload_of_asClass? hinfo, Option.bind_some, hinfo,
    hd.surface]

/-- A class is declared in a package or a class, which belongs to the same package. -/
theorem Declares.parent?_of_class (hs : s.WellFormed) (hd : s.Declares d) (hc : d.asClass?.isSome) :
    ∃ p, d.parent? = some p ∧ (p.asClass?.isSome ∨ p.asPackage?.isSome) ∧
      p.homePackage? = d.homePackage? := by
  obtain ⟨info, hinfo⟩ := Option.isSome_iff_exists.mp hc
  rw [hd.homePackage?_of_class hinfo]
  rcases hd.class_cases hs hinfo with
    ⟨p, hdp, hpackage, _, hp, _, hpkg⟩ | ⟨c, outer, hdc, hclass, _, hp, _, hpkg⟩
  · refine ⟨p, hd.parent?_eq hdp hp, .inr hpackage, ?_⟩
    rw [homePackage?_of_package hpackage, hpkg]
    exact hdp.symm
  · refine ⟨c, hd.parent?_eq hdc hp, .inl (by rw [hclass]; rfl), ?_⟩
    rw [hdc.homePackage?_of_class hclass, hpkg]

/-- What a class is declared in are classes and a package, and all belong to that package. -/
theorem Declares.belongs_of_mem_lineage (hs : s.WellFormed) (hd : s.Declares d)
    (hsort : d.asClass?.isSome ∨ d.asPackage?.isSome) (hx : x ∈ d.lineage) :
    (x.asClass?.isSome ∨ x.asPackage?.isSome) ∧ x.homePackage? = d.homePackage? := by
  induction d, hd using Declares.outward_induction with | step d hd ih => ?_
  rcases (hd.mem_lineage hs).mp hx with rfl | ⟨p, hp, hx'⟩
  · exact ⟨hsort, rfl⟩
  · rcases hsort with hc | hpackage
    · obtain ⟨p', hp', hsort', hhome⟩ := hd.parent?_of_class hs hc
      rw [hp] at hp'
      cases hp'
      obtain ⟨hdp, hlt⟩ := hd.parent? hs hp
      obtain ⟨hx, hxhome⟩ := ih p hdp hlt hsort' hx'
      exact ⟨hx, hxhome.trans hhome⟩
    · rw [lineage_of_package hs hd hpackage] at hx
      cases List.mem_singleton.mp hx
      exact ⟨.inr hpackage, rfl⟩

/-- The walk from a class ends in its package. -/
theorem Declares.getLast?_lineage (hs : s.WellFormed) (hd : s.Declares d)
    (hsort : d.asClass?.isSome ∨ d.asPackage?.isSome) :
    ∃ p, d.homePackage? = some p ∧ p.asPackage?.isSome ∧ d.lineage.getLast? = some p := by
  induction d, hd using Declares.outward_induction with | step d hd ih => ?_
  rcases hsort with hc | hpackage
  · obtain ⟨c, hc', hsort', hhome⟩ := hd.parent?_of_class hs hc
    obtain ⟨hdc, hlt⟩ := hd.parent? hs hc'
    obtain ⟨p, hp, hpackage, hlast⟩ := ih c hdc hlt hsort'
    refine ⟨p, hhome.symm.trans hp, hpackage, ?_⟩
    rw [hd.lineage_eq hs, hc', Option.map_some, Option.getD_some, List.getLast?_cons, hlast]
    rfl
  · refine ⟨d, homePackage?_of_package hpackage, hpackage, ?_⟩
    rw [lineage_of_package hs hd hpackage]
    rfl

/-- The classes around a class are those that the walk outwards comes through. -/
theorem Declares.selfAndClasses_eq_filter (hs : s.WellFormed) (hd : s.Declares d)
    (hc : d.asClass?.isSome) :
    d.selfAndClasses = d.lineage.filter fun x => x.asClass?.isSome := by
  induction d, hd using Declares.outward_induction with | step d hd ih => ?_
  obtain ⟨p, hp, hsort, _⟩ := hd.parent?_of_class hs hc
  obtain ⟨hdp, hlt⟩ := hd.parent? hs hp
  rw [hd.selfAndClasses_eq hs, hd.lineage_eq hs, List.filter_cons, if_pos hc,
    hd.containingClass?_eq hs hc, hp, Option.filter_some, Option.map_some, Option.getD_some]
  rcases hsort with hclass | hpackage
  · rw [if_pos hclass, Option.map_some, Option.getD_some, ih p hdp hlt hclass]
  · rw [lineage_of_package hs hdp hpackage]
    simp [asClass?_eq_none hpackage]

theorem Declares.enclosingClasses_eq_filter (hs : s.WellFormed) (hd : s.Declares d)
    (hc : d.asClass?.isSome) :
    d.enclosingClasses = d.lineage.tail.filter fun x => x.asClass?.isSome := by
  rw [Decl.enclosingClasses, hd.selfAndClasses_eq_filter hs hc, hd.lineage_eq hs,
    List.filter_cons, if_pos hc, List.tail_cons, List.tail_cons]

end Surface

end ApiSurface
