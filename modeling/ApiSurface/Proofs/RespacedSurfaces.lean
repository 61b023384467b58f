import ApiSurface.Proofs.Alignment
import ApiSurface.Proofs.CounterpartOverrides
import ApiSurface.Proofs.Respacing
import ApiSurface.Proofs.Restyling

/-! # Respaced descriptions

Two recipes are respacings of one another if they are the same once the spaces that mean nothing are squeezed
out of all types. What such recipes build are aligned surfaces, provided that the same members are copied from
hidden superclasses: that choice compares the texts of types. Interfaces and exceptions are sorted by their
texts, so their order may be another one. -/
namespace ApiSurface

open Surface

def Restyling.squeezing : Restyling where
  facet_false := Eq.refl false
  docOnly_false := Eq.refl false
  type := TypeRef.squeezed
  varargs_or t isVarargs := by rw [TypeRef.isVarargs_squeezed]

/-! ## Squeezed items -/

/-- The payload without what depends on how types are written: the order of some of them, and what a method
overrides. -/
def Payload.settled : Payload → Payload
  | .ofClass info => .ofClass { info with interfaces := TypeRef.canonicalSort info.interfaces }
  | .method info => .method { info with throws := TypeRef.canonicalSort info.throws, overridden := [] }
  | .constructor info => .constructor { info with throws := TypeRef.canonicalSort info.throws }
  | other => other

/-- The item with its types squeezed, and without what depends on how they had been written. -/
def Item.squeezed (item : Item) : Item :=
  { item with payload := (item.payload.restyled .squeezing).settled }

namespace Item

variable (item : Item)

theorem squeezed_noteIn (ids : List ItemId) : (noteIn ids item).squeezed = item.squeezed := by
  rcases item with ⟨_, _, _, _, _, payload⟩
  cases payload <;> rfl

theorem squeezed_canonicalItem : (canonicalItem item).squeezed = item.squeezed := by
  have hsort : ∀ types : List TypeRef,
      TypeRef.canonicalSort ((TypeRef.canonicalSort types).map TypeRef.squeezed) =
        TypeRef.canonicalSort (types.map TypeRef.squeezed) := fun types =>
    TypeRef.canonicalSort_perm ((List.mergeSort_perm types _).map _)
  rcases item with ⟨parent, rank, modifiers, flags, isEmitted, payload⟩
  cases payload with
  | ofClass info =>
    exact congrArg (fun interfaces => (⟨parent, rank, modifiers, flags, isEmitted,
      .ofClass { info.restyled .squeezing with interfaces }⟩ : Item)) (hsort info.interfaces)
  | method info =>
    exact congrArg (fun throws => (⟨parent, rank, modifiers, flags, isEmitted,
      .method { info.restyled .squeezing with throws, overridden := [] }⟩ : Item)) (hsort info.throws)
  | constructor info =>
    exact congrArg (fun throws => (⟨parent, rank, modifiers, flags, isEmitted,
      .constructor { info.restyled .squeezing with throws }⟩ : Item)) (hsort info.throws)
  | _ => rfl

theorem squeezed_linkClass (slot : Slot) (id : ItemId) :
    (Draft.linkClass slot id item).squeezed = Draft.linkClass slot id item.squeezed := by
  rcases item with ⟨_, _, _, _, _, payload⟩
  cases payload <;> cases slot <;> rfl

/-- Squeezing touches types only. -/
theorem untyped_squeezed : item.squeezed.untyped = item.untyped := by
  rcases item with ⟨_, _, _, _, _, payload⟩
  cases payload <;> rfl

end Item

namespace Surface

variable (items : Array Item)

theorem copiedParameters_squeezed (method : ItemId) (rank : Nat) (ps : List Item) :
    copiedParameters method rank (ps.map Item.squeezed) =
      (copiedParameters method rank ps).map Item.squeezed := by
  induction ps generalizing rank with
  | nil => rfl
  | cons p rest ih =>
    rw [List.map_cons, copiedParameters, copiedParameters, ih]
    rfl

theorem withMember_squeezed (member : Item) (parameters : List Item) (owner id : ItemId) (slot : Slot) :
    Arena.withMember (items.map Item.squeezed) member.squeezed (parameters.map Item.squeezed) owner
        (Draft.linkClass slot id) =
      (Arena.withMember items member parameters owner (Draft.linkClass slot id)).map Item.squeezed := by
  unfold Arena.withMember
  rw [map_modify (fun item => item.squeezed_linkClass slot id), Array.map_append, Array.map_push]
  simp only [List.map_toArray]

theorem addCopy_squeezed (copy : InheritedCopy) :
    addCopy (items.map Item.squeezed) copy = (addCopy items copy).map Item.squeezed := by
  have hget : ∀ i : Nat, (items.map Item.squeezed)[i]? = items[i]?.map Item.squeezed :=
    fun i => Array.getElem?_map
  have hsize : (items.map Item.squeezed).size = items.size := Array.size_map
  cases hs : items[copy.source.index]? with
  | none =>
    have hs' : (items.map Item.squeezed)[copy.source.index]? = none := by rw [hget, hs, Option.map_none]
    simp only [addCopy, hs, hs']
  | some source =>
    have hs' : (items.map Item.squeezed)[copy.source.index]? = some source.squeezed := by
      rw [hget, hs, Option.map_some]
    have hp' : source.squeezed.payload = (source.payload.restyled .squeezing).settled := rfl
    cases hp : source.payload with
    | method info =>
      rw [hp] at hp'
      have hps : (info.parameters.filterMap fun p => (items.map Item.squeezed)[p.index]?) =
          (info.parameters.filterMap fun p => items[p.index]?).map Item.squeezed := by
        simp only [hget, List.map_filterMap]
      rw [addCopy_method hs hp rfl, addCopy_method hs' hp' hps, hsize, copiedParameters_squeezed,
        List.length_map, ← withMember_squeezed]
      rfl
    | field info =>
      rw [hp] at hp'
      rw [addCopy_field hs hp, addCopy_field hs' hp', hsize, ← withMember_squeezed]
      rfl
    | _ =>
      rw [hp] at hp'
      simp only [addCopy, hs, hs', hp, hp', Payload.restyled, Payload.settled]

end Surface

/-! ## Respaced surfaces -/

/-- The second surface is the first one, but for spaces that mean nothing and for what depends on them. -/
structure Surface.Respaced (s t : Surface) : Prop where
  packages : t.packages = s.packages
  classes : t.classes = s.classes
  items : t.items.map Item.squeezed = s.items.map Item.squeezed

namespace Surface.Respaced

variable {s t : Surface} (h : s.Respaced t)

include h

/-- Surfaces stay respacings of one another if the same members are copied. -/
theorem withInheritedCopies (hcopies : t.inheritedCopies = s.inheritedCopies) :
    s.withInheritedCopies.Respaced t.withInheritedCopies := by
  have hfold : ∀ (copies : List InheritedCopy) (items : Array Item),
      (copies.foldl addCopy items).map Item.squeezed = copies.foldl addCopy (items.map Item.squeezed) := by
    intro copies
    induction copies with
    | nil => exact fun _ => rfl
    | cons copy rest ih => exact fun items => by rw [List.foldl_cons, ih, List.foldl_cons, addCopy_squeezed]
  refine ⟨h.packages, h.classes, ?_⟩
  unfold Surface.withInheritedCopies
  rw [hfold, hfold, hcopies, h.items]

theorem withOverrides : s.withOverrides.Respaced t.withOverrides := by
  have hnotes : ∀ u : Surface, u.withOverrides.items.map Item.squeezed = u.items.map Item.squeezed := by
    intro u
    apply Array.ext_getElem?
    intro i
    rw [Array.getElem?_map, Array.getElem?_map]
    exact map_foldl_noteOverridden (fun ids item => item.squeezed_noteIn ids) u.overrides u.items i
  exact ⟨h.packages, h.classes, by rw [hnotes, hnotes, h.items]⟩

theorem change (c : FlagChange) : (s.change c).Respaced (t.change c) := by
  let set (item : Item) : Item := { item with flags := item.flags.set c.flag c.value }
  have hset : ∀ u : Surface, (u.change c).items.map Item.squeezed =
      (u.items.map Item.squeezed).modify c.id.index set := by
    intro u
    have hcomm : ∀ item : Item, (set item).squeezed = set item.squeezed := fun _ => rfl
    rw [change_eq]
    exact map_modify hcomm u.items c.id.index
  refine ⟨?_, ?_, by rw [hset, hset, h.items]⟩
  · rw [change_eq, change_eq]
    exact h.packages
  · rw [change_eq, change_eq]
    exact h.classes

theorem changes (changes : List FlagChange) :
    (changes.foldl Surface.change s).Respaced (changes.foldl Surface.change t) := by
  induction changes generalizing s t with
  | nil => exact h
  | cons c rest ih => exact ih (h.change c)

end Surface.Respaced

/-! ## Respaced recipes -/

namespace Recipe

/-- The recipes are the same but for spaces that mean nothing, which stand in types. -/
def Respaced (r r' : Recipe) : Prop := r'.restyled .squeezing = r.restyled .squeezing

def copies (r : Recipe) : List InheritedCopy := (r.draft "").toSurface.inheritedCopies

theorem inheritedCopies_draft (r : Recipe) (location : String) :
    (r.draft location).toSurface.inheritedCopies = r.copies := by
  rw [r.draft_relocated "" location, toSurface_relocated, ← recast_reload, inheritedCopies_recast]
  rfl

namespace Respaced

variable {r r' : Recipe} (h : r.Respaced r')

include h

theorem toSurface (location location' : String) :
    (r.draft location).toSurface.Respaced (r'.draft location').toSurface := by
  have hdraft : (r'.draft location).restyled .squeezing = (r.draft location).restyled .squeezing := by
    have hrestyled := congrArg (Recipe.draft · location) h
    exact (r'.draft_restyled .squeezing location).symm.trans
      (hrestyled.trans (r.draft_restyled .squeezing location))
  have hitems : ∀ d : Draft, d.toSurface.items.map Item.squeezed =
      (d.restyled .squeezing).items.map fun item => { item with payload := item.payload.settled } := by
    intro d
    simp only [Draft.toSurface, Draft.restyled, Array.map_map, Function.comp_def, Item.squeezed_canonicalItem]
    rfl
  rw [r'.draft_relocated location location']
  have hpackages : (r'.draft location).packages = (r.draft location).packages :=
    (congrArg Draft.packages hdraft :)
  have hclasses : (r'.draft location).classes = (r.draft location).classes :=
    (congrArg Draft.classes hdraft :)
  refine ⟨hpackages, hclasses, ?_⟩
  exact (hitems (r'.draft location)).trans (hdraft ▸ (hitems (r.draft location)).symm)

/-- What respaced recipes build are respaced surfaces. -/
theorem build (hcopies : r'.copies = r.copies) (serial serial' : Nat) (location location' : String) :
    (r.build serial location).Respaced (r'.build serial' location') := by
  have hchanges : r'.changes = r.changes := (congrArg Recipe.changes (h :) :)
  have hsame : (r'.draft location').toSurface.inheritedCopies =
      (r.draft location).toSurface.inheritedCopies := by
    rw [inheritedCopies_draft, inheritedCopies_draft, hcopies]
  have hfinished := ((h.toSurface location location').withInheritedCopies hsame).withOverrides
  have hlabelled : ({ (r.draft location).finish with serial } : Surface).Respaced
      { (r'.draft location').finish with serial := serial' } :=
    ⟨hfinished.packages, hfinished.classes, hfinished.items⟩
  unfold Recipe.build
  rw [hchanges]
  exact hlabelled.changes r.changes

end Respaced

end Recipe

end ApiSurface
