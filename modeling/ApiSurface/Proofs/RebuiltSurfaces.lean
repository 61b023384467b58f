import ApiSurface.Proofs.Restyling
import ApiSurface.Proofs.TrimmedTypes

/-! # Surfaces with rebuilt types

A surface that is loaded from a document keeps the blanks around its types, and the one that is built from the
same specs does not. Both declare the same things at the same places. So the methods of the one are those of
the other with their types built anew, and two of them match where blanks hide nothing. -/
namespace ApiSurface

open Surface

/-- To build all types anew from their texts. A parameter can come to take any number of arguments. -/
def Restyling.trimming : Restyling where
  facet_false := Eq.refl false
  docOnly_false := Eq.refl false
  type := TypeRef.rebuilt
  varargs t isVarargs := isVarargs || t.rebuilt.isVarargs
  varargs_or t isVarargs := by
    cases h : t.isVarargs with
    | false => rw [Bool.or_false]
    | true => rw [TypeRef.rebuilt, TypeRef.isVarargs_trimmed_of_isVarargs h, Bool.or_true, Bool.or_true]

/-! ## Restyled drafts -/

namespace Draft

variable {d : Draft} {v : Restyling} {x x' : Decl}

theorem toSurface_items_restyled (d : Draft) (v : Restyling) (i : Nat) :
    d.toSurface.items[i]? = d.items[i]?.map canonicalItem ∧
      (d.restyled v).toSurface.items[i]? = d.items[i]?.map fun item => canonicalItem (item.restyled v) := by
  refine ⟨Array.getElem?_map, ?_⟩
  rw [toSurface, restyled, Array.getElem?_map, Array.getElem?_map, Option.map_map]
  rfl

/-- Wherever a draft declares something the restyled one declares its peer. -/
theorem decl?_restyled (d : Draft) (v : Restyling) (id : ItemId) :
    Option.Rel (d.toSurface.Peers (d.restyled v).toSurface) (d.toSurface.decl? id)
      ((d.restyled v).toSurface.decl? id) := by
  obtain ⟨hitem, hitem'⟩ := d.toSurface_items_restyled v id.index
  cases hi : d.items[id.index]? with
  | none =>
    rw [hi, Option.map_none] at hitem hitem'
    rw [Surface.decl?, Surface.decl?, hitem, hitem']
    exact .none
  | some item =>
    rw [hi, Option.map_some] at hitem hitem'
    rw [Surface.decl?, Surface.decl?, hitem, hitem']
    exact .some ⟨declares_of_getElem? hitem, declares_of_getElem? hitem', rfl⟩

/-- Peers have one item, but for the style, and for the order of what is sorted. -/
theorem exists_item (h : d.toSurface.Peers (d.restyled v).toSurface x x') :
    ∃ item, x.item = canonicalItem item ∧ x'.item = canonicalItem (item.restyled v) := by
  obtain ⟨hitem, hitem'⟩ := d.toSurface_items_restyled v x.id.index
  rw [h.left.getElem?] at hitem
  rw [← h.id, h.right.getElem?, h.id] at hitem'
  obtain ⟨item, hi, hx⟩ := Option.map_eq_some_iff.mp hitem.symm
  rw [hi, Option.map_some, Option.some.injEq] at hitem'
  exact ⟨item, hx.symm, hitem'⟩

/-- What does not depend on the style of the item is the same for peers. -/
theorem observe_restyled {α : Type} {f : Item → α}
    (hf : ∀ item : Item, f (canonicalItem (item.restyled v)) = f (canonicalItem item))
    (h : d.toSurface.Peers (d.restyled v).toSurface x x') : f x'.item = f x.item := by
  obtain ⟨item, hx, hx'⟩ := exists_item h
  rw [hx, hx', hf]

theorem label_restyled (h : d.toSurface.Peers (d.restyled v).toSurface x x') :
    x'.item.payload.label = x.item.payload.label := by
  refine observe_restyled (f := fun item => item.payload.label) (fun item => ?_) h
  rcases item with ⟨_, _, _, _, _, payload⟩
  cases payload <;> rfl

theorem name_restyled (h : d.toSurface.Peers (d.restyled v).toSurface x x') : x'.name = x.name := by
  refine observe_restyled (f := fun item => item.payload.name) (fun item => ?_) h
  rcases item with ⟨_, _, _, _, _, payload⟩
  cases payload <;> rfl

theorem isSome_asMethod?_restyled (h : d.toSurface.Peers (d.restyled v).toSurface x x') :
    x'.asMethod?.isSome = x.asMethod?.isSome := by
  refine observe_restyled (f := fun item => (Decl.mk d.toSurface x.id item).asMethod?.isSome)
    (fun item => ?_) h
  rcases item with ⟨_, _, _, _, _, payload⟩
  cases payload <;> rfl

theorem ownTypeParameters_restyled (h : d.toSurface.Peers (d.restyled v).toSurface x x') :
    x'.ownTypeParameters = x.ownTypeParameters.map (·.restyled v) := by
  obtain ⟨⟨_, _, _, _, _, payload⟩, hx, hx'⟩ := exists_item h
  unfold Decl.ownTypeParameters
  rw [hx, hx']
  cases payload <;> rfl

theorem parameterTypes_restyled (h : d.toSurface.Peers (d.restyled v).toSurface x x') :
    x'.parameterTypes = x.parameterTypes.map v.type := by
  have hslot : x'.item.payload.slot .parameters = x.item.payload.slot .parameters := by
    refine observe_restyled (f := fun item => item.payload.slot .parameters) (fun item => ?_) h
    rcases item with ⟨_, _, _, _, _, payload⟩
    cases payload <;> rfl
  rw [parameterTypes_eq h.left, parameterTypes_eq h.right, hslot, List.map_filterMap]
  refine List.filterMap_congr fun id _ => ?_
  obtain ⟨hitem, hitem'⟩ := d.toSurface_items_restyled v id.index
  rw [hitem, hitem']
  cases d.items[id.index]? with
  | none => rfl
  | some item =>
    rcases item with ⟨_, _, _, _, _, payload⟩
    cases payload <;> rfl

theorem parent?_restyled (h : d.toSurface.Peers (d.restyled v).toSurface x x') :
    Option.Rel (d.toSurface.Peers (d.restyled v).toSurface) x.parent? x'.parent? := by
  have hparent : x'.item.parent = x.item.parent := observe_restyled (f := Item.parent) (fun _ => rfl) h
  rw [Decl.parent?, Decl.parent?, hparent, h.left.surface, h.right.surface]
  cases x.item.parent with
  | none => exact .none
  | some id => exact d.decl?_restyled v id

theorem typeScope_restyled (hd : d.WellFormed) (hd' : (d.restyled v).WellFormed)
    (h : d.toSurface.Peers (d.restyled v).toSurface x x') :
    x'.typeScope = x.typeScope.map (·.restyled v) := by
  have houtward : Decl.Outward (d.toSurface.Peers (d.restyled v).toSurface) :=
    { left := fun h => h.left.inPlace (toSurface_wellFormed hd)
      right := fun h => h.right.inPlace (toSurface_wellFormed hd')
      label := label_restyled
      parent? := parent?_restyled }
  exact houtward.typeScope_eq_map ownTypeParameters_restyled h

end Draft

/-! ## Rebuilt methods -/

namespace Recipe

variable (r : Recipe) (serial serial' : Nat) (location location' : String)

theorem isPartial_build : (r.build serial location).isPartial = r.isPartial := by
  have hchanges : ∀ (changes : List FlagChange) (s : Surface),
      (changes.foldl Surface.change s).isPartial = s.isPartial := by
    intro changes
    induction changes with
    | nil => exact fun _ => rfl
    | cons change rest ih => exact fun s => by rw [List.foldl_cons, ih, change_eq]
  unfold build
  rw [hchanges]
  exact r.isPartial_draft location

/-- For every method that is declared with types in which blanks hide nothing, the surface with the types
built anew declares the rebuilt one at the same place. -/
theorem exists_rebuilt {m : Decl} (hm : (r.build serial location).Declares m) (hmethod : m.asMethod?.isSome)
    (hown : m.isInherited = false) (hbounds : ∀ p ∈ m.typeScope, ∀ b ∈ p.bounds, b.HidesNothing)
    (htypes : ∀ t ∈ m.parameterTypes, t.HidesNothing) :
    ∃ m', ((r.restyled .trimming).build serial' location').Declares m' ∧ m'.id = m.id ∧ m.Rebuilt m' := by
  have hdraft : (r.restyled .trimming).draft location = (r.draft location).restyled .trimming :=
    r.draft_restyled .trimming location
  have hd' : ((r.draft location).restyled .trimming).WellFormed :=
    hdraft ▸ (r.restyled .trimming).draft_wellFormed location
  have hread := r.draft_restates_build serial location
  have hbuilt := (r.restyled .trimming).draft_restates_of_calls location rfl serial' location'
  rw [hdraft] at hbuilt
  have hlt := r.lt_of_declared serial location hm hmethod hown
  rcases rel_cases ((r.draft location).decl?_restyled .trimming m.id) with ⟨hnone, _⟩ | ⟨x, x', hx, _, h⟩
  · rw [declares_of_getElem? (Array.getElem?_eq_getElem hlt)] at hnone
    cases hnone
  obtain ⟨m', hm', hid'⟩ := hbuilt.exists_declares h.right
  have hid : m.id = x.id := (decl?_eq_some hx).2.1.symm
  have hold : Surface.Alike x m := hread.alikeAt h.left hm hid
  have hnew : Surface.Alike x' m' := hbuilt.alikeAt h.right hm' hid'
  refine ⟨m', hm', hid'.trans (h.id.trans hid.symm), ?_⟩
  exact
    { isMethod := by
        rw [hnew.isSome_asMethod?, hold.isSome_asMethod?, Draft.isSome_asMethod?_restyled h]
      name := by rw [hnew.name, hold.name, Draft.name_restyled h]
      isPartial := by
        rw [hm.surface, hm'.surface, isPartial_build, isPartial_build]
        rfl
      typeScope := by
        rw [hnew.typeScope, hold.typeScope,
          Draft.typeScope_restyled (r.draft_wellFormed location) hd' h]
        rfl
      parameterTypes := by
        rw [hnew.parameterTypes, hold.parameterTypes, Draft.parameterTypes_restyled h]
        rfl
      boundsPlain := hbounds
      typesPlain := htypes }

end Recipe

/-- The type that is built from a text and the one that is read from a document have the same array levels
and are both primitive or both not. In everything else they differ exactly where blanks hide a final `...`
or a type variable. Methods whose types hide nothing match after their types are built anew iff they match
as they are read, where parameter types that differ in the blanks around them count as the same. Such methods
are those of a loaded surface and of the one that is built from the same specs. -/
theorem TypeRef.trimmed_agreement (text : String) :
    KeepsMeaning text ∧
      (∀ a a' b b' : Decl, a.Rebuilt a' → b.Rebuilt b' →
        (a.signatureMatches b = true → a'.signatureMatches b' = true) ∧
          ((∀ s ∈ a.parameterTypes, ∀ t ∈ b.parameterTypes, s.rebuilt = t.rebuilt → s = t) →
            a'.signatureMatches b' = a.signatureMatches b)) ∧
      ∀ (snapshot : Snapshot) (readFrom : String) (s : Surface) (serial : Nat) (location : String) (m : Decl),
        snapshot.toSurface readFrom = .ok s → s.Declares m → m.asMethod?.isSome → m.isInherited = false →
          (∀ p ∈ m.typeScope, ∀ b ∈ p.bounds, b.HidesNothing) → (∀ t ∈ m.parameterTypes, t.HidesNothing) →
            ∃ m', ((snapshot.recipe.restyled .trimming).build serial location).Declares m' ∧
              m'.id = m.id ∧ m.Rebuilt m' := by
  refine ⟨trimmed_keepsMeaning text, fun _ _ _ _ ha hb =>
    ⟨ha.signatureMatches hb, ha.signatureMatches_eq hb⟩, ?_⟩
  rintro snapshot readFrom s serial location m hs hm hmethod hown hbounds htypes
  obtain rfl := Snapshot.toSurface_eq_build hs
  exact snapshot.recipe.exists_rebuilt _ serial _ location hm hmethod hown hbounds htypes

/-- A blank behind `...` makes a base name of the whole text, so that the method that is read no longer
matches the one without the blank, while the one that is built does. A blank in front hides a variable. -/
theorem TypeRef.trimmed_disagreement :
    let text := "java.lang.String... "
    let old := (Recipe.taking false ["java.lang.String..."]).build 1 "old"
    let read : TypeRef := ⟨text⟩
    read.baseName = "java.lang.String..." ∧ (trimmed text).baseName = "java.lang.String" ∧
      read.erased = "java.lang.String...[]" ∧ (trimmed text).erased = "java.lang.String[]" ∧
      read.isVarargs = false ∧ (trimmed text).isVarargs = true ∧
      old.matchTable ((Recipe.taking false [text]).build 2 "new") "p.C" = [[false]] ∧
      old.matchTable ((Recipe.taking false [(trimmed text).text]).build 2 "new") "p.C" = [[true]] ∧
      (⟨" T"⟩ : TypeRef).isUnresolvedVariable = false ∧ (trimmed " T").isUnresolvedVariable = true := by
  decide +kernel

end ApiSurface
