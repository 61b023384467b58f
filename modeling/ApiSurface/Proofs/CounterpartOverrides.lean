import ApiSurface.Proofs.CounterpartCopies

/-! # Reordered surfaces override alike

What a method overrides is looked up through the direct supertypes of its class, whose order is canonical,
and every lookup finds twins. So twins override twins, in this order, and nothing else about a surface
changes when overrides are resolved. -/
namespace ApiSurface

open Arena Surface

namespace Surface

variable {s s' : Surface} {c c' d d' m m' : Decl}

/-! ## Noting what is overridden -/

def noteIn (ids : List ItemId) (item : Item) : Item :=
  match item.payload with
  | .method info => { item with payload := .method { info with overridden := ids } }
  | _ => item

theorem noteOverridden_eq (items : Array Item) (entry : ItemId × List ItemId) :
    noteOverridden items entry = items.modify entry.1.index (noteIn entry.2) := rfl

theorem core_noteIn (ids : List ItemId) (item : Item) : (noteIn ids item).core = item.core := by
  unfold noteIn Item.core
  cases hp : item.payload with
  | method info => rfl
  | _ => rw [hp]

theorem fieldKey?_noteIn (ids : List ItemId) (item : Item) :
    (noteIn ids item).fieldKey? = item.fieldKey? := by
  unfold noteIn Item.fieldKey?
  cases hp : item.payload with
  | method info => rfl
  | _ => rw [hp]

theorem size_foldl_noteOverridden (entries : List (ItemId × List ItemId)) (items : Array Item) :
    (entries.foldl noteOverridden items).size = items.size := by
  induction entries generalizing items with
  | nil => rfl
  | cons entry rest ih => rw [List.foldl_cons, ih, noteOverridden_eq, Array.size_modify]

/-- What no note changes is as it was after all of them. -/
theorem map_foldl_noteOverridden {α : Type} {f : Item → α} (hf : ∀ ids item, f (noteIn ids item) = f item)
    (entries : List (ItemId × List ItemId)) (items : Array Item) (i : Nat) :
    (entries.foldl noteOverridden items)[i]?.map f = items[i]?.map f := by
  induction entries generalizing items with
  | nil => rfl
  | cons entry rest ih =>
    rw [List.foldl_cons, ih, noteOverridden_eq, Array.getElem?_modify]
    split
    · rw [Option.map_map]
      exact congrArg (Option.map · items[i]?) (funext (hf entry.2))
    · rfl

theorem fieldKeys_foldl_noteOverridden (entries : List (ItemId × List ItemId)) (items : Array Item) :
    fieldKeys (entries.foldl noteOverridden items) = fieldKeys items := by
  induction entries generalizing items with
  | nil => rfl
  | cons entry rest ih =>
    rw [List.foldl_cons, ih, noteOverridden_eq, fieldKeys_modify _ _ (fieldKey?_noteIn entry.2)]

theorem getElem?_foldl_noteOverridden_of_not_mem {entries : List (ItemId × List ItemId)}
    {items : Array Item} {id : ItemId} (h : id ∉ entries.map Prod.fst) :
    (entries.foldl noteOverridden items)[id.index]? = items[id.index]? := by
  induction entries generalizing items with
  | nil => rfl
  | cons entry rest ih =>
    rw [List.map_cons, List.mem_cons, not_or] at h
    have hne : entry.1.index ≠ id.index := fun he => h.1 (congrArg ItemId.mk he.symm)
    rw [List.foldl_cons, ih h.2, noteOverridden_eq, Array.getElem?_modify, if_neg hne]

/-- Where an item has one entry, that is what is noted. -/
theorem getElem?_foldl_noteOverridden {entries : List (ItemId × List ItemId)} {items : Array Item}
    (hnodup : (entries.map Prod.fst).Nodup) {id : ItemId} {ids : List ItemId}
    (h : (id, ids) ∈ entries) :
    (entries.foldl noteOverridden items)[id.index]? = items[id.index]?.map (noteIn ids) := by
  induction entries generalizing items with
  | nil => cases h
  | cons entry rest ih =>
    obtain ⟨hhead, htail⟩ := List.nodup_cons.mp hnodup
    rw [List.foldl_cons]
    rcases List.mem_cons.mp h with rfl | h
    · rw [getElem?_foldl_noteOverridden_of_not_mem hhead, noteOverridden_eq, Array.getElem?_modify,
        if_pos rfl]
    · have hne : entry.1.index ≠ id.index := fun he =>
        hhead (List.mem_map.mpr ⟨(id, ids), h, congrArg ItemId.mk he.symm⟩)
      rw [ih htail h, noteOverridden_eq, Array.getElem?_modify, if_neg hne]

theorem withOverrides_keeps (hs : s.WellFormed) : s.Keeps s.withOverrides where
  left := hs
  right := withOverrides_wellFormed hs
  isPartial := rfl
  item i item hi := by
    have hcore := map_foldl_noteOverridden core_noteIn s.overrides s.items i
    rw [hi] at hcore
    exact Option.map_eq_some_iff.mp hcore

theorem size_withOverrides (s : Surface) : s.withOverrides.items.size = s.items.size :=
  size_foldl_noteOverridden s.overrides s.items

theorem hasPath_withOverrides (hs : s.WellFormed) {path : List Trait} :
    s.withOverrides.HasPath path ↔ s.HasPath path := by
  rw [(withOverrides_keeps hs).hasPath_iff]
  refine or_iff_left ?_
  rintro ⟨d, hd, hle, _⟩
  have hlt := (Array.getElem?_eq_some_iff.mp hd.getElem?).1
  rw [size_withOverrides] at hlt
  exact Nat.not_le_of_lt hlt hle

theorem FieldsApart.withOverrides (h : s.FieldsApart) : s.withOverrides.FieldsApart := by
  change (fieldKeys (s.overrides.foldl noteOverridden s.items)).Nodup
  rw [fieldKeys_foldl_noteOverridden]
  exact h

/-- Each method has one entry. -/
theorem nodup_overrides (hs : s.WellFormed) : (s.overrides.map Prod.fst).Nodup := by
  unfold overrides
  rw [List.map_flatMap]
  refine List.nodup_flatMap.mpr ⟨fun c hc => ?_, ?_⟩
  · rw [List.map_map, Decl.methods_eq]
    exact List.pairwise_map.mpr (pairwise_members hs ((mem_classDecls hs).mp hc).1 .methods)
  · refine (pairwise_classDecls hs).imp_of_mem fun {c d} hc hd hne => ?_
    have hdc := ((mem_classDecls hs).mp hc).1
    have hdd := ((mem_classDecls hs).mp hd).1
    change List.Disjoint _ _
    beta_reduce
    rw [List.map_map, List.map_map, Decl.methods_eq, Decl.methods_eq]
    intro id h h'
    obtain ⟨a, ha, rfl⟩ := List.mem_map.mp h
    obtain ⟨b, hb, hid⟩ := List.mem_map.mp h'
    obtain rfl := ((mem_members hs hdd).mp hb).1.eq_of_id ((mem_members hs hdc).mp ha).1 hid
    exact hne (congrArg Decl.id (owner_of_mem_members hs hdc hdd ha hb))

/-- What is noted in the methods of a class. -/
theorem payload_withOverrides (hs : s.WellFormed) (hc : s.Declares c) (hclass : c.asClass?.isSome)
    (hm : m ∈ c.methods) : ∃ info, m.item.payload = .method info ∧
      s.withOverrides.items[m.id.index]?.map Item.payload = some (.method
        { info with overridden := s.overriddenBy (s.directSupertypes c) m }) := by
  have hentry : (m.id, s.overriddenBy (s.directSupertypes c) m) ∈ s.overrides :=
    List.mem_flatMap.mpr ⟨c, (mem_classDecls hs).mpr ⟨hc, hclass⟩, List.mem_map.mpr ⟨m, hm, rfl⟩⟩
  have hitem : s.withOverrides.items[m.id.index]? = _ :=
    getElem?_foldl_noteOverridden (nodup_overrides hs) hentry
  rw [Decl.methods_eq] at hm
  have hrole := role_of_member hs hc .method hm
  rw [hitem, ((mem_members hs hc).mp hm).1.getElem?, Option.map_some, Option.map_some]
  cases hp : m.item.payload with
  | method info => exact ⟨info, rfl, by rw [noteIn, hp]⟩
  | _ => rw [hp] at hrole; cases hrole

/-- A method overrides what its class finds for it. -/
theorem overridden_withOverrides (hs : s.WellFormed) (hc : s.Declares c) (hclass : c.asClass?.isSome)
    (hm : m ∈ c.methods) {m₂ : Decl} (hm₂ : s.withOverrides.Declares m₂) (hid : m₂.id = m.id) :
    m₂.overridden = s.withOverrides.decls (s.overriddenBy (s.directSupertypes c) m) := by
  obtain ⟨info, _, hnoted⟩ := payload_withOverrides hs hc hclass hm
  rw [← hid, hm₂.getElem?, Option.map_some, Option.some.injEq] at hnoted
  rw [Decl.overridden, Decl.asMethod?, hnoted, hm₂.surface]
  rfl

/-- A method or constructor is declared in a class. -/
theorem Declares.class_of_method (hs : s.WellFormed) (hm : s.Declares m) (h : m.asMethod?.isSome) :
    ∃ c, s.Declares c ∧ c.asClass?.isSome ∧ m.item.parent = some c.id := by
  unfold Decl.asMethod? at h
  rcases hm.parent_cases hs with ⟨hpackage, _⟩ | ⟨c, hc, hparent, _, hholds⟩
  · obtain ⟨info, hinfo⟩ := Option.isSome_iff_exists.mp hpackage
    rw [payload_of_asPackage? hinfo] at h
    cases h
  · refine ⟨c, hc, ?_, hparent⟩
    unfold Decl.asClass?
    cases hpay : m.item.payload with
    | method info | constructor info =>
      rw [hpay] at hholds
      cases hcp : c.item.payload <;> rw [hcp] at hholds <;> first | rfl | cases hholds
    | _ => rw [hpay] at h; cases h

/-- A method stands among the methods of a class. -/
theorem Declares.exists_mem_methods (hs : s.WellFormed) (hm : s.Declares m) (h : m.asMethod?.isSome)
    (hconstructor : m.isConstructor = false) : ∃ c, s.Declares c ∧ c.asClass?.isSome ∧ m ∈ c.methods := by
  obtain ⟨c, hc, hclass, hparent⟩ := hm.class_of_method hs h
  have hmem := mem_overloads_self hs hc hm hparent h hclass
  rw [Decl.overloads, hconstructor] at hmem
  exact ⟨c, hc, hclass, hmem⟩

/-! ## Looking up what is overridden -/

/-- What twins override are twins, in this order, and no constructors. -/
def OverridesAlike (s s' : Surface) : Prop :=
  ∀ m m', s.Twins s' m m' → m.isConstructor = false →
    List.Forall₂ (fun d d' => d.isConstructor = false ∧ s.Twins s' d d') m.overridden m'.overridden

theorem directSupertypes_counterpart (h : s.Mirrors s') (hc : s.Twins s' c c') :
    List.Forall₂ (s.Twins s') (s.directSupertypes c) (s'.directSupertypes c') := by
  have hn := h.namesake hc
  unfold directSupertypes
  rw [hn.superclass?, hn.interfaces]
  have htypes : List.Forall₂ Eq (c.superclass?.toList ++ c.interfaces)
      (c.superclass?.toList ++ c.interfaces) := List.forall₂_same.mpr fun _ _ => rfl
  refine forall₂_filter (List.rel_filterMap ?_ htypes) fun d d' hd => ?_
  · rintro type _ rfl
    exact h.findClass? type.baseName
  · rw [Bool.eq_iff_iff, bne_iff_ne, bne_iff_ne, ne_eq, ne_eq, h.id_eq_iff hd hc]

/-- The ids of twins that are no constructors. -/
def TwinIds (s s' : Surface) (id id' : ItemId) : Prop :=
  ∃ d d', d.isConstructor = false ∧ s.Twins s' d d' ∧ d.id = id ∧ d'.id = id'

theorem overriddenBy_counterpart (hl : (Links.single s s').Sound) (hc : s.Twins s' c c')
    (hm : s.Twins s' m m') (hconstructor : m.isConstructor = false) :
    List.Forall₂ (s.TwinIds s') (s.overriddenBy (s.directSupertypes c) m)
      (s'.overriddenBy (s'.directSupertypes c') m') := by
  have h := hl.of_single.1
  have hoverridable : ∀ {d d' : Decl}, d.Namesake d' → isOverridable d' = isOverridable d := by
    intro d d' hn
    unfold isOverridable
    rw [hn.modifiers]
  have hthrough : ∀ a a', s.Twins s' a a' → Option.Rel (s.TwinIds s')
      ((s.overriddenThrough m a).map (·.id)) ((s'.overriddenThrough m' a').map (·.id)) := by
    intro a a' ha
    have hfound : Option.Rel ((Links.single s s').Overload m) (s.alone.findMethod? a m true true)
        (s'.alone.findMethod? a' m' true true) :=
      View.findMethod?_counterpart (View.alone_single s s') hl (Links.counterpart_single.mpr ha)
        Links.mem_single hm true true fun _ _ _ => rfl
    have hfiltered := rel_option_filter hfound (f := isOverridable) (g := isOverridable)
      fun d d' hd => hoverridable (hd.2.namesake hl)
    exact rel_map hfiltered fun d d' hd =>
      ⟨d, d', hd.1.trans hconstructor, Links.counterpart_single.mp hd.2, rfl, rfl⟩
  unfold overriddenBy
  rw [hoverridable (h.namesake hm)]
  split
  · refine forall₂_eraseDups ?_ (List.rel_filterMap hthrough (directSupertypes_counterpart h hc))
    rintro _ _ ⟨a, a', _, ha, rfl, rfl⟩ _ _ ⟨b, b', _, hb, rfl, rfl⟩
    exact h.id_eq_iff hb ha
  · exact .nil

/-! ## The surfaces with their overrides -/

theorem mirrors_withOverrides (h : s.Mirrors s') (hp : s.withOverrides.PathsApart)
    (hp' : s'.withOverrides.PathsApart) : s.withOverrides.Mirrors s'.withOverrides where
  left := withOverrides_wellFormed h.left
  right := withOverrides_wellFormed h.right
  isPartial := h.isPartial
  hasPath path := by rw [hasPath_withOverrides h.left, hasPath_withOverrides h.right, h.hasPath]
  pathsApart := hp
  pathsApart' := hp'
  fieldsApart := h.fieldsApart.withOverrides
  fieldsApart' := h.fieldsApart'.withOverrides

/-- A method of a grown surface with the id of an old one. -/
theorem exists_left_of_withOverrides (hs : s.WellFormed) (hd : s.withOverrides.Declares d) :
    ∃ d₁, s.Declares d₁ ∧ d.id = d₁.id ∧ d₁.Namesake d := by
  have hlt : d.id.index < s.items.size := by
    rw [← size_withOverrides]
    exact (Array.getElem?_eq_some_iff.mp hd.getElem?).1
  have hd₁ : s.Declares ⟨s, d.id, s.items[d.id.index]⟩ := by
    rw [Declares, decl?, Array.getElem?_eq_getElem hlt]
    rfl
  exact ⟨_, hd₁, rfl, (withOverrides_keeps hs).namesake hd₁ hd rfl⟩

theorem overridesAlike_withOverrides (hl : (Links.single s s').Sound) :
    s.withOverrides.OverridesAlike s'.withOverrides := by
  have h := hl.of_single.1
  intro m₂ m₂' ht hconstructor
  obtain ⟨m, hm, hid, hn⟩ := exists_left_of_withOverrides h.left ht.left
  obtain ⟨m', hm', hid', hn'⟩ := exists_left_of_withOverrides h.right ht.right
  have htwins : s.Twins s' m m' := ⟨hm, hm', by rw [← hn.path, ← hn'.path, ht.path]⟩
  have hnm := h.namesake htwins
  cases hmethod : m.asMethod? with
  | none =>
    have hnone : ∀ {d : Decl}, d.asMethod?.isSome = false → d.overridden = [] := by
      intro d hd
      rw [Decl.overridden, Option.isNone_iff_eq_none.mp (Option.isSome_eq_false_iff.mp hd)]
      rfl
    have hno : m.asMethod?.isSome = false := by rw [hmethod]; rfl
    rw [hnone (hn.isSome_asMethod?.trans hno),
      hnone (hn'.isSome_asMethod?.trans (hnm.isSome_asMethod?.trans hno))]
    exact .nil
  | some info =>
    have hconstructor' : m.isConstructor = false := by rw [← hn.isConstructor, hconstructor]
    obtain ⟨c, hc, hclass, hmem⟩ := hm.exists_mem_methods h.left (by rw [hmethod]; rfl) hconstructor'
    obtain ⟨c', hcc⟩ := h.exists_right hc
    have hmem' : m' ∈ c'.methods := by
      rw [Decl.methods_eq] at hmem ⊢
      exact h.mem_members hcc htwins hmem
    have hclass' := (h.namesake hcc).isSome_asClass?.trans hclass
    rw [overridden_withOverrides h.left hc hclass hmem ht.left hid,
      overridden_withOverrides h.right hcc.right hclass' hmem' ht.right hid']
    refine List.rel_filterMap ?_ (overriddenBy_counterpart hl hcc htwins hconstructor')
    rintro _ _ ⟨d, d', hdc, hd, rfl, rfl⟩
    obtain ⟨d₂, hd₂, hdid, hdn⟩ := (withOverrides_keeps h.left).exists_namesake hd.left
    obtain ⟨d₂', hd₂', hdid', hdn'⟩ := (withOverrides_keeps h.right).exists_namesake hd.right
    have hfind : s.withOverrides.decl? d.id = some d₂ := hdid ▸ hd₂
    have hfind' : s'.withOverrides.decl? d'.id = some d₂' := hdid' ▸ hd₂'
    rw [hfind, hfind']
    exact .some ⟨hdn.isConstructor.trans hdc, hd₂, hd₂', by rw [hdn.path, hdn'.path, hd.path]⟩

end Surface

end ApiSurface
