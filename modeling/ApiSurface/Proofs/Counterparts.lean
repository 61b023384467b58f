import ApiSurface.Proofs.Overloads

/-! # Counterparts in two checks

Two checks may read surfaces that mirror each other, and some surfaces that are the same for both. What
the one check meets then has a counterpart in the other one. Where the walk asks for the first member that
fits, the order of members must not matter: so it is if at most one of them fits. -/
namespace ApiSurface

open Arena Surface

/-- The surfaces that two checks read: some that were reordered, each with what it became, and some that
are the same for both. -/
structure Links where
  reordered : List (Surface × Surface)
  shared : List Surface

namespace Links

variable (l : Links)

/-- The first check reads `s` where the second one reads `s'`. -/
inductive Corresponds : Surface → Surface → Prop where
  | reordered {pair : Surface × Surface} (h : pair ∈ l.reordered) : Corresponds pair.1 pair.2
  | shared {s : Surface} (h : s ∈ l.shared) : Corresponds s s

/-- The first check meets `d` where the second one meets `d'`. -/
inductive Counterpart : Decl → Decl → Prop where
  | reordered {pair : Surface × Surface} {d d' : Decl} (h : pair ∈ l.reordered)
      (twins : pair.1.Twins pair.2 d d') : Counterpart d d'
  | shared {s : Surface} {d : Decl} (h : s ∈ l.shared) (declares : s.Declares d) : Counterpart d d

/-- The counterparts are constructors if `m` is one. -/
def Overload (m d d' : Decl) : Prop := d.isConstructor = m.isConstructor ∧ l.Counterpart d d'

/-- Reordered surfaces mirror each other, no overload fits two members of a class, and different surfaces
were loaded separately. -/
structure Sound : Prop where
  mirrors : ∀ pair ∈ l.reordered, pair.1.Mirrors pair.2
  distinguishes : ∀ pair ∈ l.reordered, ∀ pair' ∈ l.reordered, ∀ m, pair.1.Declares m →
    pair'.1.Distinguishes m
  distinguishes' : ∀ pair ∈ l.reordered, ∀ pair' ∈ l.reordered, ∀ m, pair.2.Declares m →
    pair'.2.Distinguishes m
  wellFormed : ∀ s ∈ l.shared, s.WellFormed
  serial : ∀ s s' t t', l.Corresponds s s' → l.Corresponds t t' →
    s.serial = t.serial ∨ s'.serial = t'.serial → s = t ∧ s' = t'

def flip : Links := { reordered := l.reordered.map Prod.swap, shared := l.shared }

variable {l} {s s' : Surface} {c c' d d' e e' m m' p p' : Decl} {slot : Slot}
  {pair : Surface × Surface}

theorem mem_reordered_flip : pair ∈ l.flip.reordered ↔ pair.swap ∈ l.reordered := by
  unfold flip
  rw [List.mem_map]
  constructor
  · rintro ⟨q, hq, rfl⟩
    exact hq
  · exact fun h => ⟨pair.swap, h, rfl⟩

theorem Corresponds.flip (h : l.flip.Corresponds s s') : l.Corresponds s' s := by
  cases h with
  | reordered h => exact .reordered (mem_reordered_flip.mp h)
  | shared h => exact .shared h

theorem Sound.flip (hl : l.Sound) : l.flip.Sound where
  mirrors _ h := (hl.mirrors _ (mem_reordered_flip.mp h)).symm
  distinguishes _ h _ h' := hl.distinguishes' _ (mem_reordered_flip.mp h) _ (mem_reordered_flip.mp h')
  distinguishes' _ h _ h' := hl.distinguishes _ (mem_reordered_flip.mp h) _ (mem_reordered_flip.mp h')
  wellFormed := hl.wellFormed
  serial s s' t t' h h' hserial := (hl.serial s' s t' t h.flip h'.flip hserial.symm).symm

def single (s s' : Surface) : Links := { reordered := [(s, s')], shared := [] }

theorem mem_single : (s, s') ∈ (single s s').reordered := List.mem_singleton_self _

theorem corresponds_single : (single s s').Corresponds s s' := .reordered mem_single

theorem mem_reordered_single (h : pair ∈ (single s s').reordered) : pair = (s, s') :=
  List.mem_singleton.mp h

theorem counterpart_single : (single s s').Counterpart d d' ↔ s.Twins s' d d' := by
  constructor
  · intro h
    cases h with
    | reordered h ht => cases mem_reordered_single h; exact ht
    | shared h => cases h
  · exact .reordered mem_single

theorem Sound.single (h : s.Mirrors s') (ho : s.OverloadsApart) (ho' : s'.OverloadsApart) :
    (single s s').Sound where
  mirrors pair hp := by cases mem_reordered_single hp; exact h
  distinguishes pair hp pair' hp' := by
    cases mem_reordered_single hp
    cases mem_reordered_single hp'
    exact ho
  distinguishes' pair hp pair' hp' := by
    cases mem_reordered_single hp
    cases mem_reordered_single hp'
    exact ho'
  wellFormed t ht := by cases ht
  serial t t' u u' ht hu _ := by
    have honly : ∀ t t', (Links.single s s').Corresponds t t' → t = s ∧ t' = s' := by
      intro t t' h
      cases h with
      | reordered h => cases mem_reordered_single h; exact ⟨rfl, rfl⟩
      | shared h => cases h
    obtain ⟨rfl, rfl⟩ := honly t t' ht
    obtain ⟨rfl, rfl⟩ := honly u u' hu
    exact ⟨rfl, rfl⟩

theorem Sound.of_single (hl : (Links.single s s').Sound) :
    s.Mirrors s' ∧ s.OverloadsApart ∧ s'.OverloadsApart := by
  exact ⟨hl.mirrors _ mem_single, hl.distinguishes _ mem_single _ mem_single,
    hl.distinguishes' _ mem_single _ mem_single⟩

namespace Counterpart

theorem namesake (h : l.Counterpart d d') (hl : l.Sound) : d.Namesake d' := by
  cases h with
  | reordered h ht => exact (hl.mirrors _ h).namesake ht
  | shared h hd => exact .refl (hd.inPlace (hl.wellFormed _ h))

theorem corresponds (h : l.Counterpart d d') : l.Corresponds d.surface d'.surface := by
  cases h with
  | reordered h ht =>
    rw [ht.left.surface, ht.right.surface]
    exact .reordered h
  | shared h hd =>
    rw [hd.surface]
    exact .shared h

theorem containingClass? (h : l.Counterpart d d') (hl : l.Sound) :
    Option.Rel l.Counterpart d.containingClass? d'.containingClass? := by
  cases h with
  | reordered h ht =>
    exact rel_imp ((hl.mirrors _ h).containingClass? ht) fun _ _ hp => .reordered h hp
  | shared h hd =>
    cases hc : d.containingClass? with
    | none => exact .none
    | some c => exact .some (.shared h (hd.containingClass? (hl.wellFormed _ h) hc).1)

/-- The members of counterparts are counterparts, in some order. -/
theorem members (h : l.Counterpart c c') (hl : l.Sound) (slot : Slot) :
    Shuffled l.Counterpart (c.members slot) (c'.members slot) := by
  cases h with
  | reordered h ht =>
    obtain ⟨ds, hds, hperm⟩ := (hl.mirrors _ h).members ht slot
    exact ⟨ds, hds.imp fun _ _ he => .reordered h he, hperm⟩
  | shared h hd =>
    refine .of_forall₂ (List.forall₂_same.mpr fun e he => .shared h ?_)
    exact ((mem_members (hl.wellFormed _ h) hd).mp he).1

theorem constructors (h : l.Counterpart c c') (hl : l.Sound) :
    Shuffled l.Counterpart c.constructors c'.constructors := by
  rw [Decl.constructors_eq, Decl.constructors_eq]
  exact h.members hl .constructors

theorem methods (h : l.Counterpart c c') (hl : l.Sound) :
    Shuffled l.Counterpart c.methods c'.methods := by
  rw [Decl.methods_eq, Decl.methods_eq]
  exact h.members hl .methods

theorem fields (h : l.Counterpart c c') (hl : l.Sound) :
    Shuffled l.Counterpart c.fields c'.fields := by
  rw [Decl.fields_eq, Decl.fields_eq]
  exact h.members hl .fields

/-- Overloads of one method are counterparts, and constructors if it is one. -/
theorem overloads (h : l.Counterpart c c') (hl : l.Sound) (hm : m.Namesake m') :
    Shuffled (l.Overload m) (c.overloads m) (c'.overloads m') := by
  have hshuffled : Shuffled l.Counterpart (c.overloads m) (c'.overloads m') := by
    unfold Decl.overloads
    rw [hm.isConstructor]
    split
    · exact h.constructors hl
    · exact h.methods hl
  refine hshuffled.and_left fun a ha => ?_
  have hin := (h.namesake hl).left
  exact isConstructor_of_mem_overloads hin.wellFormed hin.declares ha

theorem parameters (h : l.Counterpart m m') (hl : l.Sound) :
    List.Forall₂ l.Counterpart m.parameters m'.parameters := by
  cases h with
  | reordered h ht => exact ((hl.mirrors _ h).parameters ht).imp fun _ _ he => .reordered h he
  | shared h hd =>
    rw [Decl.parameters_eq]
    refine List.forall₂_same.mpr fun e he => .shared h ?_
    exact ((mem_members (hl.wellFormed _ h) hd).mp he).1

/-! ## The first member that fits -/

/-- An overload finds counterparts, because it fits one member of a class at most. -/
theorem find?_overloads (hc : l.Counterpart c c') (hl : l.Sound) (h : pair ∈ l.reordered)
    (hm : pair.1.Twins pair.2 m m') {f g : Decl → Bool}
    (hfg : ∀ d d', l.Overload m d d' → g d' = f d)
    (hg : ∀ d, g d = true → d.signatureMatches m' = true) :
    Option.Rel (l.Overload m) ((c.overloads m).find? f) ((c'.overloads m').find? g) := by
  have hn := (hl.mirrors _ h).namesake hm
  have hshuffled := hc.overloads hl hn
  cases hc with
  | @reordered pair' _ _ h' ht =>
    refine hshuffled.find? hfg fun a ha b hb hga hgb => ?_
    have hone := hl.distinguishes' _ h _ h' m' hm.right c' ht.right a ha b hb
    rw [Decl.signatureMatches_comm m' a, Decl.signatureMatches_comm m' b] at hone
    exact hone (hg a hga) (hg b hgb)
  | shared h' hd =>
    have hsame : c.overloads m' = c.overloads m := by
      unfold Decl.overloads
      rw [hn.isConstructor]
    rw [hsame]
    have hwf := hl.wellFormed _ h'
    refine find?_rel (List.forall₂_same.mpr fun e he => ?_) hfg
    exact ⟨isConstructor_of_mem_overloads hwf hd he, .shared h' (declares_of_mem_overloads hwf hd he)⟩

/-- A name finds counterparts, because it is that of one field of a class at most. -/
theorem find?_fields (hc : l.Counterpart c c') (hl : l.Sound) (name : String) {f g : Decl → Bool}
    (hfg : ∀ d d', l.Counterpart d d' → g d' = f d) (hg : ∀ d, g d = true → d.name = name) :
    Option.Rel l.Counterpart (c.fields.find? f) (c'.fields.find? g) := by
  have hshuffled := hc.fields hl
  cases hc with
  | reordered h ht =>
    have hmirrors := hl.mirrors _ h
    refine hshuffled.find? hfg fun a ha b hb hga hgb => ?_
    rw [Decl.fields_eq] at ha hb
    exact hmirrors.fieldsApart'.eq_of_name hmirrors.right ht.right ha hb
      ((hg a hga).trans (hg b hgb).symm)
  | shared h hd =>
    rw [Decl.fields_eq]
    refine find?_rel (List.forall₂_same.mpr fun e he => .shared h ?_) hfg
    exact ((mem_members (hl.wellFormed _ h) hd).mp he).1

/-! ## Identity -/

theorem id_eq_iff (hd : l.Counterpart d d') (he : l.Counterpart e e') (hl : l.Sound)
    (hserial : d.surface.serial = e.surface.serial) : d'.id = e'.id ↔ d.id = e.id := by
  obtain ⟨hs, hs'⟩ := hl.serial _ _ _ _ hd.corresponds he.corresponds (.inl hserial)
  -- Either both are twins in one pair of surfaces, or both belong to a shared surface.
  have hpair : ∀ {pair : Surface × Surface} {d d' e e' : Decl},
      pair.1.Twins pair.2 d d' → l.Counterpart e e' → d.surface = e.surface →
      d'.surface = e'.surface → pair.1.Twins pair.2 e e' := by
    intro pair d d' e e' hd he hs hs'
    rw [hd.left.surface] at hs
    rw [hd.right.surface] at hs'
    cases he with
    | reordered _ he =>
      exact ⟨hs ▸ he.left.surface.symm ▸ he.left, hs' ▸ he.right.surface.symm ▸ he.right, he.path⟩
    | shared _ he =>
      exact ⟨hs ▸ he.surface.symm ▸ he, hs' ▸ he.surface.symm ▸ he, rfl⟩
  cases hd with
  | reordered h ht => exact (hl.mirrors _ h).id_eq_iff ht (hpair ht he hs hs')
  | shared h hdd =>
    cases he with
    | reordered h' ht' =>
      exact (hl.mirrors _ h').id_eq_iff (hpair ht' (.shared h hdd) hs.symm hs'.symm) ht'
    | shared => exact Iff.rfl

theorem isSame (hd : l.Counterpart d d') (he : l.Counterpart e e') (hl : l.Sound) :
    d'.isSame e' = d.isSame e := by
  unfold Decl.isSame
  have hiff : d'.surface.serial = e'.surface.serial ↔ d.surface.serial = e.surface.serial := by
    constructor
    · intro h
      rw [(hl.serial _ _ _ _ hd.corresponds he.corresponds (.inr h)).1]
    · intro h
      rw [(hl.serial _ _ _ _ hd.corresponds he.corresponds (.inl h)).2]
  by_cases hserial : d.surface.serial = e.surface.serial
  · have hid : (d'.id == e'.id) = (d.id == e.id) := by
      rw [Bool.eq_iff_iff, beq_iff_eq, beq_iff_eq]
      exact hd.id_eq_iff he hl hserial
    rw [hid, hserial, hiff.mpr hserial, beq_self_eq_true, beq_self_eq_true]
  · rw [beq_false_of_ne hserial, beq_false_of_ne fun h => hserial (hiff.mp h)]
    rfl

end Counterpart

/-! ## Lookups -/

namespace Corresponds

theorem findClass? (h : l.Corresponds s s') (hl : l.Sound) (name : String) :
    Option.Rel l.Counterpart (s.findClass? name) (s'.findClass? name) := by
  cases h with
  | reordered h =>
    exact rel_imp ((hl.mirrors _ h).findClass? name) fun _ _ hd => .reordered h hd
  | shared h =>
    cases hc : s.findClass? name with
    | none => exact .none
    | some c => exact .some (.shared h ((findClass?_eq_some (hl.wellFormed _ h)).mp hc).1)

theorem isPartial (h : l.Corresponds s s') (hl : l.Sound) : s'.isPartial = s.isPartial := by
  cases h with
  | reordered h => exact (hl.mirrors _ h).isPartial
  | shared => rfl

theorem size_classes (h : l.Corresponds s s') (hl : l.Sound) :
    s'.classes.size = s.classes.size := by
  cases h with
  | reordered h => exact (hl.mirrors _ h).size_classes
  | shared h => rfl

end Corresponds

end Links

end ApiSurface
