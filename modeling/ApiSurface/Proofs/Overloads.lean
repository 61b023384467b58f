import ApiSurface.Proofs.Accounting
import ApiSurface.Proofs.Mirrors

/-! # Unambiguous overloads

Overloads are unambiguous if a method never matches two methods of one class. Then no two declarations of
a surface have one path, provided that its fields differ in their names: whatever is declared in one place
differs in its name, its signature or its position. What holds of a surface that has grown holds of the
surface from which it grew. -/
namespace ApiSurface

open Arena Surface

/-- The methods of the class, or its constructors if `m` is one. -/
def Decl.overloads (c m : Decl) : List Decl := if m.isConstructor then c.constructors else c.methods

/-- No method of one of the surfaces matches two methods of a class of one of them, and no constructor two
constructors. -/
def Unambiguous (surfaces : List Surface) : Prop :=
  ∀ s ∈ surfaces, ∀ m ∈ s.allDecls, ∀ t ∈ surfaces, ∀ c ∈ t.classDecls,
    (c.overloads m).countP m.signatureMatches ≤ 1

instance (surfaces : List Surface) : Decidable (Unambiguous surfaces) := by
  unfold Unambiguous
  infer_instance

namespace Surface

/-- Of the methods of a class at most one matches `m`, or of its constructors if `m` is one. -/
def Distinguishes (s : Surface) (m : Decl) : Prop :=
  ∀ c, s.Declares c → ∀ a ∈ c.overloads m, ∀ b ∈ c.overloads m,
    m.signatureMatches a = true → m.signatureMatches b = true → a = b

/-- The surface distinguishes all its own methods. -/
def OverloadsApart (s : Surface) : Prop := ∀ m, s.Declares m → s.Distinguishes m

variable {s s' t : Surface} {a b c d e m p : Decl}

theorem isConstructor_of_role (h : d.item.payload.role = .constructor) : d.isConstructor = true := by
  unfold Decl.isConstructor
  cases hp : d.item.payload with
  | constructor info => rfl
  | _ => rw [hp] at h; cases h

theorem isConstructor_of_role_method (h : d.item.payload.role = .method) : d.isConstructor = false := by
  unfold Decl.isConstructor
  cases hp : d.item.payload with
  | constructor info => rw [hp] at h; cases h
  | _ => rfl

/-- The overloads stand in one list of the class. -/
theorem mem_overloads (ha : a ∈ c.overloads m) :
    m.isConstructor = true ∧ a ∈ c.members .constructors ∨
      m.isConstructor = false ∧ a ∈ c.members .methods := by
  unfold Decl.overloads at ha
  rw [Decl.constructors_eq, Decl.methods_eq] at ha
  cases h : m.isConstructor with
  | true => exact .inl ⟨rfl, by simpa [h] using ha⟩
  | false => exact .inr ⟨rfl, by simpa [h] using ha⟩

theorem isConstructor_of_mem_overloads (hs : s.WellFormed) (hc : s.Declares c)
    (ha : a ∈ c.overloads m) : a.isConstructor = m.isConstructor := by
  rcases mem_overloads ha with ⟨hm, ha⟩ | ⟨hm, ha⟩
  · rw [hm, isConstructor_of_role (role_of_member hs hc .constructor ha)]
  · rw [hm, isConstructor_of_role_method (role_of_member hs hc .method ha)]

theorem declares_of_mem_overloads (hs : s.WellFormed) (hc : s.Declares c) (ha : a ∈ c.overloads m) :
    s.Declares a := by
  rcases mem_overloads ha with ⟨_, ha⟩ | ⟨_, ha⟩
  · exact ((mem_members hs hc).mp ha).1
  · exact ((mem_members hs hc).mp ha).1

/-- A method or constructor is an overload of itself. -/
theorem mem_overloads_self (hs : s.WellFormed) (hc : s.Declares c) (hd : s.Declares d)
    (hp : d.item.parent = some c.id) (hm : d.asMethod?.isSome) (hclass : c.asClass?.isSome) :
    d ∈ c.overloads d := by
  have hslots : c.item.payload.role.hasSlot .constructors ∧ c.item.payload.role.hasSlot .methods := by
    obtain ⟨package, outer, hrole⟩ := role_of_asClass? hclass
    rw [hrole]
    exact ⟨rfl, rfl⟩
  unfold Decl.overloads
  rw [Decl.constructors_eq, Decl.methods_eq]
  split
  · next h => exact (mem_members_iff_holds hs hc hslots.1).mpr ⟨hd, h, hp⟩
  · next h => exact (mem_members_iff_holds hs hc hslots.2).mpr ⟨hd, hm, h, hp⟩

/-! ## One match at most -/

theorem distinguishes_of_unambiguous {surfaces : List Surface} (h : Unambiguous surfaces)
    (hs : s ∈ surfaces) (ht : t ∈ surfaces) (hwf : t.WellFormed) (hm : s.Declares m) :
    t.Distinguishes m := by
  intro c hc a ha b hb hma hmb
  cases hclass : c.asClass?.isSome with
  | false =>
    have hnone : c.overloads m = [] := by
      unfold Decl.overloads Decl.constructors Decl.methods
      rw [Option.isNone_iff_eq_none.mp (Option.isSome_eq_false_iff.mp hclass)]
      split <;> rfl
    rw [hnone] at ha
    cases ha
  | true =>
    have hone := h s hs m (mem_allDecls.mpr hm) t ht c ((mem_classDecls hwf).mpr ⟨hc, hclass⟩)
    rw [List.countP_eq_length_filter] at hone
    exact Comparison.eq_of_length_le_one hone (List.mem_filter.mpr ⟨ha, hma⟩) (List.mem_filter.mpr ⟨hb, hmb⟩)

/-- A method is one of the overloads of any method of its class, and a constructor of any constructor. -/
theorem overloads_of_mem (hs : s.WellFormed) (hc : s.Declares c) {role : Role} {slot : Slot}
    (hrole : MemberRole role slot) (hno : role ≠ .field) (ha : a ∈ c.members slot) :
    c.overloads a = c.members slot := by
  have hpay := role_of_member hs hc hrole ha
  unfold Decl.overloads
  rw [Decl.constructors_eq, Decl.methods_eq]
  cases hrole with
  | constructor => rw [isConstructor_of_role hpay, if_pos rfl]
  | method => rw [isConstructor_of_role_method hpay, if_neg Bool.false_ne_true]
  | field => exact (hno rfl).elim

/-- Two methods of a class match only if they are one, and two constructors too. -/
theorem OverloadsApart.pairwise_members (h : s.OverloadsApart) (hs : s.WellFormed)
    (hc : s.Declares c) {role : Role} {slot : Slot} (hrole : MemberRole role slot)
    (hno : role ≠ .field) : (c.members slot).Pairwise fun a b => a.signatureMatches b = false := by
  refine (Surface.pairwise_members hs hc slot).imp_of_mem fun {a b} ha hb hne => ?_
  by_contra hmatch
  rw [Bool.not_eq_false] at hmatch
  have hda := ((mem_members hs hc).mp ha).1
  rw [← overloads_of_mem hs hc hrole hno ha] at hb
  have ha' : a ∈ c.overloads a := (overloads_of_mem hs hc hrole hno ha).symm ▸ ha
  exact hne (congrArg Decl.id (h a hda c hc a ha' b hb
    (Decl.signatureMatches_self (Decl.signatureMatches_sound hmatch).2.1) hmatch))

/-! ## Paths -/

/-- In one place a name, a signature or a position singles out a declaration. -/
theorem eq_of_parent (hs : s.WellFormed) (ho : s.OverloadsApart) (hf : s.FieldsApart)
    (hn : d.Namesake e) (hd : s.Declares d) (he : s.Declares e) (hp : s.Declares p)
    (hdp : d.item.parent = some p.id) (hep : e.item.parent = some p.id) : d = e := by
  have hholds := hd.parent_holds hs hdp
  obtain ⟨p', hp', _, hhold⟩ := hholds
  rw [hp] at hp'
  cases hp'
  cases hpay : d.item.payload with
  | package info => cases hpp : p.item.payload <;> rw [hpp, hpay] at hhold <;> cases hhold
  | ofClass info =>
    have hdc : d.asClass?.isSome := by rw [Decl.asClass?, hpay]; rfl
    exact hd.eq_of_class_name hs he hdc (hn.isSome_asClass?.trans hdc) hn.name.symm
  | field info =>
    have hfield : d.asField?.isSome := by rw [Decl.asField?, hpay]; rfl
    have hslot : p.item.payload.role.hasSlot .fields = true := by
      cases hpp : p.item.payload <;> rw [hpp, hpay] at hhold <;> first | rfl | cases hhold
    exact hf.eq_of_name hs hp ((mem_members_iff_holds hs hp hslot).mpr ⟨hd, hfield, hdp⟩)
      ((mem_members_iff_holds hs hp hslot).mpr ⟨he, hn.isSome_asField?.trans hfield, hep⟩) hn.name.symm
  | parameter info =>
    have hparameter : d.asParameter?.isSome := by rw [Decl.asParameter?, hpay]; rfl
    have hslot : p.item.payload.role.hasSlot .parameters = true := by
      cases hpp : p.item.payload <;> rw [hpp, hpay] at hhold <;> first | rfl | cases hhold
    have hmd := (mem_members_iff_holds hs hp hslot).mpr ⟨hd, hparameter, hdp⟩
    have hme := (mem_members_iff_holds hs hp hslot).mpr ⟨he, hn.asParameter? ▸ hparameter, hep⟩
    have hpositions : ((p.members .parameters).map fun q => q.asParameter?.map (·.position)).Nodup := by
      refine List.pairwise_map.mpr ((Mirrors.pairwise_parameters hs hp).imp ?_)
      rintro a b ⟨i, j, hi, hj, hlt⟩ heq
      rw [hi, hj, Option.some.injEq] at heq
      omega
    exact List.inj_on_of_nodup_map hpositions hmd hme (by rw [hn.asParameter?])
  | method info | constructor info =>
    have hmethod : d.asMethod?.isSome := by rw [Decl.asMethod?, hpay]; rfl
    have hclass : p.asClass?.isSome := by
      unfold Decl.asClass?
      cases hpp : p.item.payload <;> rw [hpp, hpay] at hhold <;> first | rfl | cases hhold
    have hself := mem_overloads_self hs hp hd hdp hmethod hclass
    have hother := mem_overloads_self hs hp he hep (hn.isSome_asMethod?.trans hmethod) hclass
    have hlist : p.overloads e = p.overloads d := by
      unfold Decl.overloads
      rw [hn.isConstructor]
    have hmatch := Decl.signatureMatches_self hmethod
    refine ho d hd p hp d hself e (hlist ▸ hother) hmatch ?_
    rw [Decl.Namesake.signatureMatches (.refl (hd.inPlace hs)) hn, hmatch]

theorem pathsApart (hs : s.WellFormed) (ho : s.OverloadsApart) (hf : s.FieldsApart) :
    s.PathsApart := by
  intro d e hd he hpath
  induction d, hd using Declares.outward_induction generalizing e with | step d hd ih => ?_
  have hn : d.Namesake e :=
    ⟨hd.inPlace hs, he.inPlace hs, by rw [hd.surface, he.surface], hpath.symm⟩
  have hrel := hn.parent?
  rcases hd.parent_cases hs with ⟨hpackage, _⟩ | ⟨p, hp, hdp, hlt, _⟩
  · have hpackage' := hn.isSome_asPackage?.trans hpackage
    have hfound := (findPackage?_eq_some hs).mpr ⟨hd, hpackage, rfl⟩
    rw [(findPackage?_eq_some hs).mpr ⟨he, hpackage', hn.name⟩] at hfound
    exact (Option.some.inj hfound).symm
  · rw [hd.parent?_eq hp hdp] at hrel
    obtain ⟨q, hq, hpq⟩ := exists_of_rel_some hrel
    obtain rfl := ih p hp hlt q (he.parent? hs hq).1 hpq.path.symm
    obtain ⟨id, hid, hdecl⟩ := Option.bind_eq_some_iff.mp hq
    rw [he.surface] at hdecl
    exact eq_of_parent hs ho hf hn hd he hp hdp (by rw [hid, (decl?_eq_some hdecl).2.1])

/-! ## Grown surfaces -/

namespace Keeps

theorem pathsApart (h : s.Keeps s') (hs' : s'.PathsApart) : s.PathsApart := by
  intro d e hd he hpath
  obtain ⟨d', hd', hid, hn⟩ := h.exists_namesake hd
  obtain ⟨e', he', hid', hn'⟩ := h.exists_namesake he
  have heq := hs' d' e' hd' he' (by rw [hn.path, hn'.path, hpath])
  exact hd.eq_of_id he (by rw [← hid, ← hid', heq])

/-- A member stays one. -/
theorem mem_overloads (h : s.Keeps s') {c' m' a' : Decl} (hc : s.Declares c) (hc' : s'.Declares c')
    (hcid : c'.id = c.id) (hm : m.Namesake m') (ha : a ∈ c.overloads m) (ha' : s'.Declares a')
    (haid : a'.id = a.id) : a' ∈ c'.overloads m' := by
  have hda := declares_of_mem_overloads h.left hc ha
  have hna := h.namesake hda ha' haid
  have hcore : a'.item.core = a.item.core := by
    obtain ⟨item', hi', hcore⟩ := h.item a.id.index a.item hda.getElem?
    have hitem := ha'.getElem?
    rw [haid, hi'] at hitem
    cases hitem
    exact hcore
  have hslots : ∀ {slot : Slot}, c.item.payload.role.hasSlot slot = true →
      c'.item.payload.role.hasSlot slot = true :=
    fun hslot => ((h.namesake hc hc' hcid).hasSlot _).trans hslot
  unfold Decl.overloads
  rw [hm.isConstructor, Decl.constructors_eq, Decl.methods_eq]
  rcases Surface.mem_overloads ha with ⟨hconstructor, ha⟩ | ⟨hconstructor, ha⟩
  · have hslot := hasSlot_of_mem ha
    obtain ⟨_, hkind, hparent⟩ := (mem_members_iff_holds h.left hc hslot).mp ha
    rw [if_pos hconstructor]
    refine (mem_members_iff_holds h.right hc' (hslots hslot)).mpr ⟨ha', ?_, ?_⟩
    · rw [hna.isConstructor]
      exact hkind
    · rw [Item.parent_of_core hcore, hparent, hcid]
  · have hslot := hasSlot_of_mem ha
    obtain ⟨_, hkind, hno, hparent⟩ := (mem_members_iff_holds h.left hc hslot).mp ha
    rw [if_neg (by rw [hconstructor]; exact Bool.false_ne_true)]
    refine (mem_members_iff_holds h.right hc' (hslots hslot)).mpr ⟨ha', ?_, ?_, ?_⟩
    · rw [hna.isSome_asMethod?]
      exact hkind
    · rw [hna.isConstructor]
      exact hno
    · rw [Item.parent_of_core hcore, hparent, hcid]

theorem overloadsApart (h : s.Keeps s') (hs' : s'.OverloadsApart) : s.OverloadsApart := by
  intro m hm c hc a ha b hb hma hmb
  have hda := declares_of_mem_overloads h.left hc ha
  have hdb := declares_of_mem_overloads h.left hc hb
  obtain ⟨m', hm', _, hnm⟩ := h.exists_namesake hm
  obtain ⟨c', hc', hcid, _⟩ := h.exists_namesake hc
  obtain ⟨a', ha', haid, hna⟩ := h.exists_namesake hda
  obtain ⟨b', hb', hbid, hnb⟩ := h.exists_namesake hdb
  have heq := hs' m' hm' c' hc' a' (h.mem_overloads hc hc' hcid hnm ha ha' haid) b'
    (h.mem_overloads hc hc' hcid hnm hb hb' hbid) (by rw [hnm.signatureMatches hna, hma])
    (by rw [hnm.signatureMatches hnb, hmb])
  exact hda.eq_of_id hdb (by rw [← haid, ← hbid, heq])

end Keeps

end Surface

end ApiSurface
