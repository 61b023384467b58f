import ApiSurface.Proofs.PathGrowth
import ApiSurface.Proofs.DistinctFields
import ApiSurface.Proofs.Fallbacks

/-! # Surfaces that mirror each other

Two surfaces mirror each other if they declare the same paths, each of them once. Their declarations then
come in pairs: what a declaration is declared in, and what is declared in it, is paired with what its
counterpart is declared in, and with what is declared in that. Only the order of members may differ. -/
namespace ApiSurface

open Arena Surface

namespace Surface

/-- No two declarations have one path. -/
def PathsApart (s : Surface) : Prop := ∀ d e, s.Declares d → s.Declares e → d.path = e.path → d = e

/-- The surfaces declare the same paths, each once. -/
structure Mirrors (s s' : Surface) : Prop where
  left : s.WellFormed
  right : s'.WellFormed
  isPartial : s'.isPartial = s.isPartial
  hasPath : ∀ path, s'.HasPath path ↔ s.HasPath path
  pathsApart : s.PathsApart
  pathsApart' : s'.PathsApart
  fieldsApart : s.FieldsApart
  fieldsApart' : s'.FieldsApart

/-- Declarations of the two surfaces with one path. -/
structure Twins (s s' : Surface) (d d' : Decl) : Prop where
  left : s.Declares d
  right : s'.Declares d'
  path : d'.path = d.path

variable {s s' : Surface} {c c' d d' e e' m m' p p' : Decl} {slot : Slot}

theorem Twins.symm (h : s.Twins s' d d') : s'.Twins s d' d := ⟨h.right, h.left, h.path.symm⟩

theorem mem_classDecls (hs : s.WellFormed) :
    d ∈ s.classDecls ↔ s.Declares d ∧ d.asClass?.isSome := by
  unfold classDecls
  constructor
  · intro h
    obtain ⟨hid, hd⟩ := mem_decls h
    obtain ⟨name, hn⟩ := (mem_values _).mp hid
    obtain ⟨d', hd', hc, _⟩ := (classes_iff hs).mp hn
    rw [hd] at hd'
    cases hd'
    exact ⟨hd, hc⟩
  · rintro ⟨hd, hc⟩
    have hid := (mem_values _).mpr ⟨d.name, (classes_iff hs).mpr ⟨d, hd, hc, rfl⟩⟩
    exact List.mem_filterMap.mpr ⟨d.id, hid, hd⟩

theorem hasSlot_of_mem (h : e ∈ d.members slot) : d.item.payload.role.hasSlot slot = true := by
  unfold Decl.members at h
  cases hp : d.item.payload <;> cases slot <;> rw [hp] at h <;> first | rfl | cases h

/-- A member belongs where it is listed. -/
theorem mem_members_iff_holds (hs : s.WellFormed) (hd : s.Declares d)
    (hslot : d.item.payload.role.hasSlot slot = true) :
    e ∈ d.members slot ↔ s.Declares e ∧ slot.Holds d e := by
  rw [mem_members hs hd]
  exact and_congr_right fun he => hd.lists_iff_holds hs he hslot

end Surface

namespace Decl.Namesake

variable {d d' : Decl}

theorem hasSlot (h : d.Namesake d') (slot : Slot) :
    d'.item.payload.role.hasSlot slot = d.item.payload.role.hasSlot slot := by
  refine h.observe (f := fun d => d.item.payload.role.hasSlot slot) fun d => ?_
  unfold Item.lone Item.bare
  cases d.item.payload <;> cases slot <;> rfl

theorem isSome_asMethod? (h : d.Namesake d') : d'.asMethod?.isSome = d.asMethod?.isSome := by
  have hm := congrArg Option.isSome h.map_asMethod?
  rwa [Option.isSome_map, Option.isSome_map] at hm

theorem isSome_asField? (h : d.Namesake d') : d'.asField?.isSome = d.asField?.isSome := by
  have hm := congrArg Option.isSome h.map_asField?
  rwa [Option.isSome_map, Option.isSome_map] at hm

/-- The packages of namesakes are namesakes. -/
theorem homePackage? (h : d.Namesake d') (hc : d.asClass?.isSome) :
    Option.Rel Namesake d.homePackage? d'.homePackage? := by
  have hc' : d'.asClass?.isSome := by rw [h.isSome_asClass?, hc]
  obtain ⟨p, hp, _, hlast⟩ := h.left.declares.getLast?_lineage h.left.wellFormed (.inl hc)
  obtain ⟨p', hp', _, hlast'⟩ := h.right.declares.getLast?_lineage h.right.wellFormed (.inl hc')
  rw [hp, hp', ← hlast, ← hlast']
  exact getLast?_rel h.lineage

end Decl.Namesake

namespace Surface.Mirrors

variable {s s' : Surface} {c c' d d' e e' m m' p p' : Decl} {slot : Slot}

theorem symm (h : s.Mirrors s') : s'.Mirrors s where
  left := h.right
  right := h.left
  isPartial := h.isPartial.symm
  hasPath path := (h.hasPath path).symm
  pathsApart := h.pathsApart'
  pathsApart' := h.pathsApart
  fieldsApart := h.fieldsApart'
  fieldsApart' := h.fieldsApart

theorem namesake (h : s.Mirrors s') (ht : s.Twins s' d d') : d.Namesake d' where
  left := ht.left.inPlace h.left
  right := ht.right.inPlace h.right
  isPartial := by rw [ht.left.surface, ht.right.surface, h.isPartial]
  path := ht.path

/-- Namesakes of the two surfaces are twins. -/
theorem twins (hn : d.Namesake d') (hd : s.Declares d) (hd' : s'.Declares d') : s.Twins s' d d' :=
  ⟨hd, hd', hn.path⟩

/-- Every declaration has a twin. -/
theorem exists_right (h : s.Mirrors s') (hd : s.Declares d) : ∃ d', s.Twins s' d d' := by
  obtain ⟨d', hd', hpath⟩ := (h.hasPath d.path).mpr ⟨d, hd, rfl⟩
  exact ⟨d', hd, hd', hpath⟩

/-- It has only one. -/
theorem eq_right (h : s.Mirrors s') (hd : s.Twins s' d d') (he : s.Twins s' d e') : d' = e' :=
  h.pathsApart' d' e' hd.right he.right (hd.path.trans he.path.symm)

theorem eq_left (h : s.Mirrors s') (hd : s.Twins s' d d') (he : s.Twins s' e d') : d = e :=
  h.pathsApart d e hd.left he.left (hd.path.symm.trans he.path)

theorem id_eq_iff (h : s.Mirrors s') (hd : s.Twins s' d d') (he : s.Twins s' e e') :
    d'.id = e'.id ↔ d.id = e.id := by
  constructor
  · intro hid
    cases hd.right.eq_of_id he.right hid
    exact congrArg Decl.id (h.eq_left hd he)
  · intro hid
    cases hd.left.eq_of_id he.left hid
    exact congrArg Decl.id (h.eq_right hd he)

/-- Namesakes that are declared in the two surfaces, if there are any, are twins. -/
theorem twins_option {o o' : Option Decl} (hrel : Option.Rel Decl.Namesake o o')
    (ho : ∀ p, o = some p → s.Declares p) (ho' : ∀ p, o' = some p → s'.Declares p) :
    Option.Rel (s.Twins s') o o' := by
  cases hrel with
  | none => exact .none
  | some hn => exact .some (twins hn (ho _ rfl) (ho' _ rfl))

theorem parent? (h : s.Mirrors s') (ht : s.Twins s' d d') :
    Option.Rel (s.Twins s') d.parent? d'.parent? :=
  twins_option (h.namesake ht).parent? (fun _ hp => (ht.left.parent? h.left hp).1)
    fun _ hp => (ht.right.parent? h.right hp).1

theorem containingClass? (h : s.Mirrors s') (ht : s.Twins s' d d') :
    Option.Rel (s.Twins s') d.containingClass? d'.containingClass? :=
  twins_option (h.namesake ht).containingClass? (fun _ hp => (ht.left.containingClass? h.left hp).1)
    fun _ hp => (ht.right.containingClass? h.right hp).1

/-! ## Members -/

theorem parent_eq (h : s.Mirrors s') (hc : s.Twins s' c c') (he : s.Twins s' e e')
    (hp : e.item.parent = some c.id) : e'.item.parent = some c'.id := by
  have hrel := h.parent? he
  rw [he.left.parent?_eq hc.left hp] at hrel
  obtain ⟨p', hp', hpp⟩ := exists_of_rel_some hrel
  rw [h.eq_right hpp hc] at hp'
  obtain ⟨id, hid, hdecl⟩ := Option.bind_eq_some_iff.mp hp'
  rw [hid, (decl?_eq_some hdecl).2.1]

theorem package_eq (h : s.Mirrors s') (hc : s.Twins s' c c') (he : s.Twins s' e e')
    (hp : e.asClass?.map (·.package) = some c.id) : e'.asClass?.map (·.package) = some c'.id := by
  have hn := h.namesake he
  obtain ⟨info, hinfo, hpackage⟩ := Option.map_eq_some_iff.mp hp
  have hclass : e.asClass?.isSome := by rw [hinfo]; rfl
  obtain ⟨info', hinfo'⟩ := Option.isSome_iff_exists.mp (hn.isSome_asClass?.trans hclass)
  have hrel := hn.homePackage? hclass
  have hhome : e.homePackage? = some c := by
    rw [he.left.homePackage?_of_class hinfo, hpackage]
    exact hc.left
  rw [hhome] at hrel
  obtain ⟨p', hp', hpp⟩ := exists_of_rel_some hrel
  rw [he.right.homePackage?_of_class hinfo'] at hp'
  obtain ⟨hsurface, hid, _⟩ := decl?_eq_some hp'
  have hdp' : s'.Declares p' := by rw [Declares, hid, hp']
  rw [hinfo', Option.map_some, ← hid, h.eq_right (twins hpp hc.left hdp') hc]

theorem holds (h : s.Mirrors s') (hc : s.Twins s' c c') (he : s.Twins s' e e')
    (hm : slot.Holds c e) : slot.Holds c' e' := by
  have hn := h.namesake he
  unfold Slot.Holds at hm ⊢
  rw [hn.isSome_asClass?, hn.isConstructor, hn.isSome_asMethod?, hn.isSome_asField?, hn.asParameter?]
  cases slot with
  | classes => exact h.package_eq hc he hm
  | methods => exact ⟨hm.1, hm.2.1, h.parent_eq hc he hm.2.2⟩
  | _ => exact ⟨hm.1, h.parent_eq hc he hm.2⟩

theorem mem_members (h : s.Mirrors s') (hc : s.Twins s' c c') (he : s.Twins s' e e')
    (hm : e ∈ c.members slot) : e' ∈ c'.members slot := by
  have hslot := hasSlot_of_mem hm
  have hslot' := ((h.namesake hc).hasSlot slot).trans hslot
  rw [mem_members_iff_holds h.left hc.left hslot] at hm
  exact (mem_members_iff_holds h.right hc.right hslot').mpr ⟨he.right, h.holds hc he hm.2⟩

/-- Lists of twins, each without repetition, are the same list in some order. -/
theorem shuffled (h : s.Mirrors s') {l l' : List Decl} (hl : ∀ e ∈ l, s.Declares e)
    (hl' : ∀ e ∈ l', s'.Declares e) (hmem : ∀ e e', s.Twins s' e e' → (e' ∈ l' ↔ e ∈ l))
    (hpair : l.Pairwise fun a b => a.id ≠ b.id) (hpair' : l'.Pairwise fun a b => a.id ≠ b.id) :
    Shuffled (s.Twins s') l l' := by
  obtain ⟨m, hm⟩ := exists_forall₂ fun e he => h.exists_right (hl e he)
  have hnodup : m.Nodup := by
    clear hmem hl
    induction hm with
    | nil => exact .nil
    | @cons a b _ _ hab hrest ih =>
      obtain ⟨hhead, htail⟩ := List.pairwise_cons.mp hpair
      refine List.nodup_cons.mpr ⟨fun hb => ?_, ih htail⟩
      obtain ⟨a', ha', hab'⟩ := exists_mem_left hrest hb
      exact hhead a' ha' (congrArg Decl.id (h.eq_left hab hab'))
  have hnodup' : l'.Nodup := hpair'.imp fun hne heq => hne (congrArg Decl.id heq)
  refine ⟨m, hm, (List.perm_ext_iff_of_nodup hnodup hnodup').mpr fun e' => ?_⟩
  constructor
  · intro he'
    obtain ⟨e, he, hee⟩ := exists_mem_left hm he'
    exact (hmem e e' hee).mpr he
  · intro he'
    obtain ⟨e, hee⟩ := h.symm.exists_right (hl' e' he')
    obtain ⟨e₁, he₁, hee₁⟩ := exists_mem_right hm ((hmem e e' hee.symm).mp he')
    rwa [h.eq_right hee.symm hee₁]

/-- The members of twins are twins, in some order. -/
theorem members (h : s.Mirrors s') (hc : s.Twins s' c c') (slot : Slot) :
    Shuffled (s.Twins s') (c.members slot) (c'.members slot) :=
  h.shuffled (fun _ he => ((Surface.mem_members h.left hc.left).mp he).1)
    (fun _ he => ((Surface.mem_members h.right hc.right).mp he).1)
    (fun _ _ hee => ⟨h.symm.mem_members hc.symm hee.symm, h.mem_members hc hee⟩)
    (pairwise_members h.left hc.left slot) (pairwise_members h.right hc.right slot)

/-- The surfaces have as many declarations. -/
theorem size_eq (h : s.Mirrors s') : s'.size = s.size := by
  have hids : ∀ s : Surface, ((List.range s.size).map ItemId.mk).Nodup :=
    fun s => List.nodup_range.map fun _ _ heq => congrArg ItemId.index heq
  have hall := h.shuffled (fun _ => mem_allDecls.mp) (fun _ => mem_allDecls.mp)
    (fun e e' hee => by rw [mem_allDecls, mem_allDecls]; exact iff_of_true hee.right hee.left)
    (pairwise_decls (hids s)) (pairwise_decls (hids s'))
  rw [← length_allDecls, ← length_allDecls, hall.length_eq]

/-- The parameters of a method stand in the order of their positions. -/
theorem pairwise_parameters (hs : s.WellFormed) (hd : s.Declares d) :
    (d.members .parameters).Pairwise fun p q =>
      ∃ i j, p.asParameter?.map (·.position) = some i ∧ q.asParameter?.map (·.position) = some j ∧
        i < j := by
  have hslot : (d.item.payload.slot .parameters).Pairwise fun id id' =>
      ∀ p, s.decl? id = some p → ∀ q, s.decl? id' = some q →
        ∃ i j, p.asParameter?.map (·.position) = some i ∧ q.asParameter?.map (·.position) = some j ∧
          i < j := by
    rw [List.pairwise_iff_getElem]
    intro i j hi hj hlt p hp q hq
    obtain ⟨p', hp', hposition⟩ := hd.position_eq hs (List.getElem?_eq_getElem hi)
    obtain ⟨q', hq', hposition'⟩ := hd.position_eq hs (List.getElem?_eq_getElem hj)
    rw [hp] at hp'
    rw [hq] at hq'
    cases hp'
    cases hq'
    exact ⟨i, j, hposition, hposition', hlt⟩
  unfold Decl.members
  rw [hd.surface]
  exact List.Pairwise.filterMap s.decl? (fun id id' h p hp q hq => h p hp q hq) hslot

/-- The parameters of twins are twins, in this order. -/
theorem parameters (h : s.Mirrors s') (hm : s.Twins s' m m') :
    List.Forall₂ (s.Twins s') m.parameters m'.parameters := by
  rw [Decl.parameters_eq, Decl.parameters_eq]
  refine (h.members hm .parameters).forall₂_of_pairwise ?_ ?_
    (pairwise_parameters h.left hm.left) (pairwise_parameters h.right hm.right)
  · rintro a b hab c d hcd ⟨i, j, hi, hj, hlt⟩
    rw [← (h.namesake hab).asParameter?] at hi
    rw [← (h.namesake hcd).asParameter?] at hj
    exact ⟨i, j, hi, hj, hlt⟩
  · rintro a b ⟨i, j, hi, hj, hlt⟩ ⟨j', i', hj', hi', hlt'⟩
    rw [hi] at hi'
    rw [hj] at hj'
    cases hi'
    cases hj'
    omega

/-! ## Lookups -/

theorem rel_of_iff (h : s.Mirrors s') {find find' : Option Decl} {P : Decl → Prop}
    (hfind : ∀ {d}, find = some d ↔ s.Declares d ∧ P d)
    (hfind' : ∀ {d}, find' = some d ↔ s'.Declares d ∧ P d)
    (hP : ∀ {d d'}, d.Namesake d' → (P d' ↔ P d)) : Option.Rel (s.Twins s') find find' := by
  cases hf : find with
  | some d =>
    obtain ⟨hd, hPd⟩ := hfind.mp hf
    obtain ⟨d', ht⟩ := h.exists_right hd
    rw [hfind'.mpr ⟨ht.right, (hP (h.namesake ht)).mpr hPd⟩]
    exact .some ht
  | none =>
    cases hf' : find' with
    | none => exact .none
    | some d' =>
      obtain ⟨hd', hPd'⟩ := hfind'.mp hf'
      obtain ⟨d, ht⟩ := h.symm.exists_right hd'
      rw [hfind.mpr ⟨ht.right, (hP (h.symm.namesake ht)).mpr hPd'⟩] at hf
      cases hf

theorem findClass? (h : s.Mirrors s') (name : String) :
    Option.Rel (s.Twins s') (s.findClass? name) (s'.findClass? name) :=
  h.rel_of_iff (findClass?_eq_some h.left) (findClass?_eq_some h.right) fun hn => by
    rw [hn.isSome_asClass?, hn.name]

theorem findPackage? (h : s.Mirrors s') (name : String) :
    Option.Rel (s.Twins s') (s.findPackage? name) (s'.findPackage? name) :=
  h.rel_of_iff (findPackage?_eq_some h.left) (findPackage?_eq_some h.right) fun hn => by
    rw [hn.isSome_asPackage?, hn.name]

/-- The surfaces have as many classes. -/
theorem size_classes (h : s.Mirrors s') : s'.classes.size = s.classes.size := by
  have hmem : ∀ {s : Surface}, s.WellFormed → ∀ name,
      name ∈ s.classes.keys ↔ (s.findClass? name).isSome := by
    intro s hs name
    rw [Std.TreeMap.mem_keys, Std.TreeMap.mem_iff_isSome_getElem?]
    unfold Surface.findClass?
    cases hid : s.classes[name]? with
    | none => rfl
    | some id =>
      obtain ⟨d, hd, _⟩ := (classes_iff hs).mp hid
      rw [Option.bind_some, hd]
      rfl
  have hnodup : ∀ s : Surface, s.classes.keys.Nodup := by
    refine fun s => s.classes.distinct_keys.imp ?_
    rintro name _ hne rfl
    exact hne Std.ReflCmp.compare_self
  have hperm : s'.classes.keys.Perm s.classes.keys := by
    refine (List.perm_ext_iff_of_nodup (hnodup s') (hnodup s)).mpr fun name => ?_
    rw [hmem h.right, hmem h.left, isSome_of_rel (h.findClass? name)]
  have hlen := hperm.length_eq
  rwa [Std.TreeMap.length_keys, Std.TreeMap.length_keys] at hlen

theorem packageDecls (h : s.Mirrors s') (name : String) :
    name ∈ s'.packageDecls.map Decl.name ↔ name ∈ s.packageDecls.map Decl.name := by
  have hmem : ∀ {s : Surface}, s.WellFormed →
      (name ∈ s.packageDecls.map Decl.name ↔ (s.findPackage? name).isSome) := by
    intro s hs
    rw [List.mem_map, Option.isSome_iff_exists]
    exact exists_congr fun d => by rw [findPackage?_eq_some hs, mem_packageDecls hs, and_assoc]
  rw [hmem h.right, hmem h.left, isSome_of_rel (h.findPackage? name)]

end Surface.Mirrors

end ApiSurface
