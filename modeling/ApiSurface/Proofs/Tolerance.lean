import ApiSurface.Proofs.Restatements

/-! # The loose test of signatures is a tolerance

The loose test is symmetric and reflexive. It holds between the versions that a declared method has in two
surfaces built from the same specs, because all that it reads of a method comes from the specs. The label of
a partial surface only lets more methods match. Where erasures alone decide, the test is transitive too. -/
namespace ApiSurface

open Arena Surface

namespace Surface

variable {s s' t t' u v : Surface} {a b d a' b' c : Decl}

/-- What the loose test is to two surfaces and to others that are built from the same specs, `s'` as `s` and
`t'` as `t`. -/
structure Tolerant (s s' t t' : Surface) : Prop where
  comm : ∀ a b, s.Declares a → t.Declares b → a.signatureMatches b = b.signatureMatches a
  self : ∀ a, s.Declares a → a.asMethod?.isSome → a.signatureMatches a = true
  /-- A declared method has a counterpart, which says the same and which it matches. -/
  counterpart : ∀ a, s.Declares a → a.asMethod?.isSome → a.isInherited = false →
    (∃ a', s'.Declares a' ∧ a'.id = a.id) ∧ ∀ a', s'.Declares a' → a'.id = a.id →
      a'.item.gist = a.item.gist ∧ a'.isInherited = false ∧ a.signatureMatches a' = true
  /-- What matches still does so when either surface is labelled as partial. -/
  mono : (s.isPartial → s'.isPartial) → (t.isPartial → t'.isPartial) → ∀ a b, s.Declares a → t.Declares b →
    a.isInherited = false → b.isInherited = false → a.signatureMatches b = true →
      ∀ a' b', s'.Declares a' → t'.Declares b' → a'.id = a.id → b'.id = b.id → a'.signatureMatches b' = true
  /-- The test is transitive among members of one class without type parameters of their own. -/
  trans : s.isPartial = false → ∀ c, s.Declares c → ∀ a ∈ c.constructors ++ c.methods,
    ∀ b ∈ c.constructors ++ c.methods, ∀ d ∈ c.constructors ++ c.methods, a.ownTypeParameters = [] →
      b.ownTypeParameters = [] → d.ownTypeParameters = [] → a.signatureMatches b = true →
        b.signatureMatches d = true → a.signatureMatches d = true

/-! ## Versions of one method -/

theorem Restates.alike (hs : u.Restates s) (hs' : u.Restates s') (hlt : a.id.index < u.size)
    (ha : s.Declares a) (ha' : s'.Declares a') (hid : a'.id = a.id) : Alike a a' := by
  have hd : u.Declares ⟨u, a.id, u.items[a.id.index]⟩ :=
    declares_of_getElem? (Array.getElem?_eq_getElem hlt)
  exact (hs.alikeAt hd ha rfl).symm.trans (hs'.alikeAt hd ha' hid)

theorem Restates.exists_counterpart (hs : u.Restates s) (hs' : u.Restates s') (hlt : a.id.index < u.size)
    (ha : s.Declares a) : (∃ a', s'.Declares a' ∧ a'.id = a.id) ∧ ∀ a', s'.Declares a' → a'.id = a.id →
      a'.item.gist = a.item.gist ∧ a'.isInherited = a.isInherited := by
  have hd : u.Declares ⟨u, a.id, u.items[a.id.index]⟩ :=
    declares_of_getElem? (Array.getElem?_eq_getElem hlt)
  refine ⟨(hs'.exists_declares hd :), fun a' ha' hid => ⟨?_, ?_⟩⟩
  · rw [hs'.gist hd ha' hid, hs.gist hd ha rfl]
  · rw [hs'.isInherited hd ha' hid, hs.isInherited hd ha rfl]

/-! ## Members of one class -/

theorem isSome_asMethod?_of_mem (hs : s.WellFormed) (hc : s.Declares c)
    (hm : a ∈ c.constructors ++ c.methods) : a.asMethod?.isSome := by
  rw [Decl.constructors_eq, Decl.methods_eq] at hm
  rcases List.mem_append.mp hm with hm | hm
  · exact isSome_asMethod?_of_member hs hc .constructor (by simp) hm
  · exact isSome_asMethod?_of_member hs hc .method (by simp) hm

/-- Members without type parameters of their own see those of their class, and of the classes around it. -/
theorem typeScope_of_mem (hs : s.WellFormed) (hc : s.Declares c) (hm : a ∈ c.constructors ++ c.methods)
    (hown : a.ownTypeParameters = []) :
    s.Declares a ∧ a.typeScope = c.selfAndClasses.flatMap Decl.ownTypeParameters := by
  have hmethod := isSome_asMethod?_of_mem hs hc hm
  have hplace : s.Declares a ∧ a.parent? = some c := by
    rw [Decl.constructors_eq, Decl.methods_eq] at hm
    rcases List.mem_append.mp hm with hm | hm
    all_goals exact ⟨((mem_members hs hc).mp hm).1, parent?_of_member hs hc hm (by simp) (by simp)⟩
  obtain ⟨ha, hparent⟩ := hplace
  have haround : a.containingMethod? = none ∧ a.containingClass? = some c := by
    unfold Decl.asMethod? at hmethod
    unfold Decl.containingMethod? Decl.containingClass?
    cases hp : a.item.payload with
    | method info | constructor info => exact ⟨rfl, hparent⟩
    | _ => rw [hp] at hmethod; cases hmethod
  refine ⟨ha, ?_⟩
  rw [Decl.typeScope, hown, haround.1, Decl.enclosingClasses, ha.selfAndClasses_eq hs, haround.2]
  rfl

/-- In one scope and without labels erasures alone decide, so the test is transitive. -/
theorem signatureMatches_trans (hs : s.WellFormed) (hpartial : s.isPartial = false) (hc : s.Declares c)
    (ha : a ∈ c.constructors ++ c.methods) (hb : b ∈ c.constructors ++ c.methods)
    (hd : d ∈ c.constructors ++ c.methods) (hoa : a.ownTypeParameters = []) (hob : b.ownTypeParameters = [])
    (hod : d.ownTypeParameters = []) (hab : a.signatureMatches b = true) (hbd : b.signatureMatches d = true) :
    a.signatureMatches d = true := by
  obtain ⟨hda, hsa⟩ := typeScope_of_mem hs hc ha hoa
  obtain ⟨hdb, hsb⟩ := typeScope_of_mem hs hc hb hob
  obtain ⟨hdd, hsd⟩ := typeScope_of_mem hs hc hd hod
  have hma := isSome_asMethod?_of_mem hs hc ha
  have hmb := isSome_asMethod?_of_mem hs hc hb
  have hmd := isSome_asMethod?_of_mem hs hc hd
  have hpart : ∀ {e : Decl}, s.Declares e → e.surface.isPartial = false := fun he => by
    rw [he.surface, hpartial]
  rw [Decl.signatureMatches_iff_of_scope hma hmb (hsb.trans hsa.symm) (hpart hda) (hpart hdb)] at hab
  rw [Decl.signatureMatches_iff_of_scope hmb hmd (hsd.trans hsb.symm) (hpart hdb) (hpart hdd)] at hbd
  rw [Decl.signatureMatches_iff_of_scope hma hmd (hsd.trans hsa.symm) (hpart hda) (hpart hdd)]
  refine ⟨hab.1.trans hbd.1, hab.2.trans ?_⟩
  rw [hsa, ← hsb]
  exact hbd.2

end Surface

/-! ## Built surfaces -/

theorem SameSpecs.wellFormed {s s' : Surface} (h : SameSpecs s s') : s.WellFormed := by
  obtain ⟨u, hs, _⟩ := h.exists_source
  exact hs.right

/-- For all methods and constructors of any two surfaces, each of them partial or not, the loose test is
symmetric and reflexive, holds between the versions of a declared method in surfaces of the same specs, and
goes on to hold when a surface is labelled as partial. It is transitive within a class of a surface that is
not partial, for members without type parameters of their own. -/
theorem signatureMatches_tolerance {s s' t t' : Surface} (hs : SameSpecs s s') (ht : SameSpecs t t') :
    s.Tolerant s' t t' := by
  obtain ⟨u, hus, hus', hu⟩ := hs.exists_source
  obtain ⟨v, hvt, hvt', hv⟩ := ht.exists_source
  exact
    { comm := fun a b _ _ => a.signatureMatches_comm b
      self := fun a _ ha => Decl.signatureMatches_self ha
      counterpart := fun a ha hmethod hown => by
        have hlt := hu a ha hmethod hown
        obtain ⟨hex, hgist⟩ := hus.exists_counterpart hus' hlt ha
        refine ⟨hex, fun a' ha' hid => ⟨(hgist a' ha' hid).1, (hgist a' ha' hid).2.trans hown, ?_⟩⟩
        exact (hus.alike hus' hlt ha ha' hid).signatureMatches_self hmethod
      mono := fun hps hpt a b ha hb hoa hob h a' b' ha' hb' hida hidb => by
        obtain ⟨hma, hmb, _⟩ := Decl.signatureMatches_iff.mp h
        have halike := hus.alike hus' (hu a ha hma hoa) ha ha' hida
        have halike' := hvt.alike hvt' (hv b hb hmb hob) hb hb' hidb
        refine halike.signatureMatches halike' ?_ ?_ h
        · rwa [ha.surface, ha'.surface]
        · rwa [hb.surface, hb'.surface]
      trans := fun hpartial c hc a ha b hb d hd => signatureMatches_trans hs.wellFormed hpartial hc ha hb hd }

/-- One class with a method `m` for each of the parameter types. -/
def Recipe.taking (isPartial : Bool) (types : List String) : Recipe where
  isPartial := isPartial
  calls := [.packageSpec
    { name := "p"
      classes := [
        { name := "p.C"
          modifiers := .ofVisibility .publicAccess
          methods := types.map fun type =>
            { MethodSpec.published "m" with parameters := [{ type := ⟨type⟩ }] } }] }]

def Surface.matchTable (s t : Surface) (name : String) : List (List Bool) :=
  ((s.findClass? name).map fun c => c.methods.map fun a =>
    ((t.findClass? name).map fun c => c.methods.map a.signatureMatches).getD []).getD []

/-- With the label, the type `T` that no surface explains may stand for the other types. All else stays. -/
theorem signatureMatches_tolerance_relabelled :
    let types := ["T", "java.util.List<E>", "java.util.List"]
    let s := (Recipe.taking false types).build 1 "old"
    let s' := (Recipe.taking true types).build 2 "old, partial"
    let t := (Recipe.taking false ["java.lang.String", "java.util.List<T>"]).build 3 "new"
    s.Tolerant s' t t ∧
      s.matchTable t "p.C" = [[false, false], [false, true], [false, true]] ∧
      s'.matchTable t "p.C" = [[true, true], [false, true], [false, true]] := by
  intro types s s' t
  have hs : SameSpecs s s' := .intro (Recipe.taking false types) (Recipe.taking true types) rfl 1 2 _ _
  have ht : SameSpecs t t := .intro _ _ rfl 3 3 _ _
  exact ⟨signatureMatches_tolerance hs ht, by decide +kernel, by decide +kernel⟩

end ApiSurface
