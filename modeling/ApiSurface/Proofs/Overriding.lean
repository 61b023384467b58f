import ApiSurface.Proofs.AlikeViews
import ApiSurface.Proofs.CounterpartOverrides
import ApiSurface.Proofs.Restatements

/-! # What methods override

What a method overrides is looked up while the surface is being finished, before anything is noted in it,
and flags may still change afterwards. No lookup reads notes or flags, so in the surface as it is in the
end the same lookup gives just what is noted. -/
namespace ApiSurface

open Arena Surface

/-- The payload without what is noted in it in the end. -/
def Payload.unmarked : Payload → Payload
  | .method info => .method { info with overridden := [] }
  | other => other

/-- The item without what is noted in it in the end, and without its own flags. -/
def Item.unmarked (item : Item) : Item := { item with flags := {}, payload := item.payload.unmarked }

namespace Surface

/-- `s'` is `s` with other notes of what is overridden, and with other flags. -/
structure Marks (s s' : Surface) : Prop where
  left : s.WellFormed
  right : s'.WellFormed
  isPartial : s'.isPartial = s.isPartial
  classes : s'.classes = s.classes
  item : ∀ i : Nat, s'.items[i]?.map Item.unmarked = s.items[i]?.map Item.unmarked

variable {s s' s'' : Surface} {c c' d d' e e' m m' : Decl}

namespace Marks

theorem restates (h : s.Marks s') : s.Restates s' where
  left := h.left
  right := h.right
  item i item hi := by
    have hitem := h.item i
    rw [hi] at hitem
    obtain ⟨item', hi', hsame⟩ := Option.map_eq_some_iff.mp hitem
    refine ⟨item', hi', ?_⟩
    have hgist : ∀ item : Item, item.unmarked.gist = item.gist := by
      intro item
      unfold Item.gist Item.unmarked Payload.unmarked
      cases item.payload <;> rfl
    rw [← hgist item', hsame, hgist]

/-- What hangs on no note and on no flag is the same at one place. -/
theorem observe {α : Type} {f : Decl → α} (h : s.Marks s') (hd : s.Peers s' d d')
    (hf : ∀ d : Decl, f d.item.unmarked.lone = f d) : f d' = f d := by
  have hitem := h.item d.id.index
  rw [hd.left.getElem?, ← hd.id, hd.right.getElem?, Option.map_some, Option.map_some,
    Option.some.injEq] at hitem
  rw [← hf d', hitem, hf]

theorem slot (h : s.Marks s') (hd : s.Peers s' d d') (slot : Slot) :
    d'.item.payload.slot slot = d.item.payload.slot slot := by
  refine h.observe (f := fun d => d.item.payload.slot slot) hd fun ⟨_, _, item⟩ => ?_
  unfold Item.unmarked
  cases item.payload <;> cases slot <;> rfl

theorem modifiers (h : s.Marks s') (hd : s.Peers s' d d') : d'.modifiers = d.modifiers :=
  h.observe hd fun _ => rfl

theorem isOverridable (h : s.Marks s') (hd : s.Peers s' d d') :
    isOverridable d' = isOverridable d := by
  unfold Surface.isOverridable
  rw [h.modifiers hd]

theorem isConstructor (h : s.Marks s') (hd : s.Peers s' d d') :
    d'.isConstructor = d.isConstructor := by
  refine h.observe hd fun ⟨_, _, item⟩ => ?_
  unfold Item.unmarked Decl.isConstructor
  cases item.payload <;> rfl

theorem superclass? (h : s.Marks s') (hd : s.Peers s' d d') : d'.superclass? = d.superclass? := by
  refine h.observe hd fun ⟨_, _, item⟩ => ?_
  unfold Item.unmarked Decl.superclass? Decl.asClass?
  cases item.payload <;> rfl

theorem interfaces (h : s.Marks s') (hd : s.Peers s' d d') : d'.interfaces = d.interfaces := by
  refine h.observe hd fun ⟨_, _, item⟩ => ?_
  unfold Item.unmarked Decl.interfaces Decl.asClass?
  cases item.payload <;> rfl

theorem isSome_asClass? (h : s.Marks s') (hd : s.Peers s' d d') :
    d'.asClass?.isSome = d.asClass?.isSome := by
  refine h.observe (f := fun d => d.asClass?.isSome) hd fun ⟨_, _, item⟩ => ?_
  unfold Item.unmarked Decl.asClass?
  cases item.payload <;> rfl

theorem name (h : s.Marks s') (hd : s.Peers s' d d') : d'.name = d.name :=
  h.restates.name hd.left hd.right hd.id

theorem signatureMatches (h : s.Marks s') (hd : s.Peers s' d d') (he : s.Peers s' e e') :
    d'.signatureMatches e' = d.signatureMatches e := by
  have hlabel : ∀ {d d'}, s.Peers s' d d' → d'.surface.isPartial = d.surface.isPartial := by
    intro d d' hd
    rw [hd.left.surface, hd.right.surface, h.isPartial]
  exact (h.restates.alikeAt hd.left hd.right hd.id).signatureMatches_eq
    (h.restates.alikeAt he.left he.right he.id) (hlabel hd) (hlabel he)

/-! ## Lookups at one place -/

theorem decl? (h : s.Marks s') (id : ItemId) :
    Option.Rel (s.Peers s') (s.decl? id) (s'.decl? id) := by
  have hitem := h.item id.index
  unfold Surface.decl?
  cases hi : s.items[id.index]? with
  | none =>
    rw [hi, Option.map_none, Option.map_eq_none_iff] at hitem
    rw [hitem]
    exact .none
  | some item =>
    rw [hi] at hitem
    obtain ⟨item', hi', _⟩ := Option.map_eq_some_iff.mp hitem
    rw [hi']
    exact .some ⟨declares_of_getElem? hi, declares_of_getElem? hi', rfl⟩

theorem exists_left (h : s.Marks s') (hd' : s'.Declares d') : ∃ d, s.Peers s' d d' := by
  have hat := h.decl? d'.id
  have hdecl : s'.decl? d'.id = some d' := hd'
  rw [hdecl] at hat
  cases hfound : s.decl? d'.id with
  | none => rw [hfound] at hat; cases hat
  | some d =>
    rw [hfound] at hat
    cases hat with
    | some hd => exact ⟨d, hd⟩

theorem members (h : s.Marks s') (hc : s.Peers s' c c') (slot : Slot) :
    List.Forall₂ (s.Peers s') (c.members slot) (c'.members slot) := by
  unfold Decl.members
  rw [hc.left.surface, hc.right.surface, h.slot hc]
  refine List.rel_filterMap ?_ (List.forall₂_same.mpr fun id _ => rfl)
  rintro id _ rfl
  exact h.decl? id

theorem methods (h : s.Marks s') (hc : s.Peers s' c c') :
    List.Forall₂ (s.Peers s') c.methods c'.methods := by
  rw [Decl.methods_eq, Decl.methods_eq]
  exact h.members hc .methods

theorem constructors (h : s.Marks s') (hc : s.Peers s' c c') :
    List.Forall₂ (s.Peers s') c.constructors c'.constructors := by
  rw [Decl.constructors_eq, Decl.constructors_eq]
  exact h.members hc .constructors

theorem findClass? (h : s.Marks s') (name : String) :
    Option.Rel (s.Peers s') (s.findClass? name) (s'.findClass? name) := by
  unfold Surface.findClass?
  rw [h.classes]
  cases s.classes[name]? with
  | none => exact .none
  | some id => exact h.decl? id

/-- Marks do not show in the hierarchy. -/
theorem alike (h : s.Marks s') : View.Alike (s.Peers s') s.alone s'.alone where
  name hd := h.name hd
  superclass? hd := h.superclass? hd
  interfaces hd := h.interfaces hd
  findClass? name := by
    rw [View.findClass?_alone, View.findClass?_alone]
    exact h.findClass? name
  classCount := by
    have hone : ∀ s : Surface, s.alone.classCount = s.classes.size + 0 := fun _ => rfl
    rw [hone, hone, h.classes]

theorem findMethod? (h : s.Marks s') (hd : s.Peers s' d d') (hm : s.Peers s' m m')
    (superclasses interfaces : Bool) : Option.Rel (s.Peers s')
      (s.alone.findMethod? d m superclasses interfaces)
      (s'.alone.findMethod? d' m' superclasses interfaces) := by
  have hhit : ∀ a a', s.Peers s' a a' →
      (a'.signatureMatches m' && true) = (a.signatureMatches m && true) :=
    fun a a' ha => by rw [h.signatureMatches ha hm]
  unfold View.findMethod?
  rw [h.isConstructor hm]
  split
  · exact find?_rel (h.constructors hd) hhit
  · exact rel_or (find?_rel (h.methods hd) hhit)
      (h.alike.searchSupertypes hd superclasses interfaces fun c c' hc => find?_rel (h.methods hc) hhit)

theorem overriddenThrough (h : s.Marks s') (hd : s.Peers s' d d') (hm : s.Peers s' m m') :
    Option.Rel (s.Peers s') (s.overriddenThrough m d) (s'.overriddenThrough m' d') :=
  rel_option_filter (h.findMethod? hd hm true true) fun _ _ ha => h.isOverridable ha

theorem directSupertypes (h : s.Marks s') (hc : s.Peers s' c c') :
    List.Forall₂ (s.Peers s') (s.directSupertypes c) (s'.directSupertypes c') := by
  unfold Surface.directSupertypes
  rw [h.superclass? hc, h.interfaces hc]
  refine forall₂_filter (List.rel_filterMap ?_ (List.forall₂_same.mpr fun type _ => rfl)) fun d d' hd => ?_
  · rintro type _ rfl
    exact h.findClass? type.baseName
  · rw [hd.id, hc.id]

/-- Marks do not show in what a method overrides. -/
theorem overriddenBy (h : s.Marks s') (hc : s.Peers s' c c') (hm : s.Peers s' m m') :
    s'.overriddenBy (s'.directSupertypes c') m' = s.overriddenBy (s.directSupertypes c) m := by
  have hthrough : ∀ d d', s.Peers s' d d' → Option.Rel Eq
      ((s.overriddenThrough m d).map (·.id)) ((s'.overriddenThrough m' d').map (·.id)) :=
    fun d d' hd => rel_map (h.overriddenThrough hd hm) fun _ _ ha => ha.id.symm
  have hfound := List.rel_filterMap hthrough (h.directSupertypes hc)
  rw [List.forall₂_eq_eq_eq] at hfound
  unfold Surface.overriddenBy
  rw [h.isOverridable hm, hfound]

/-! ## Marking a surface -/

theorem withOverrides (hs : s.WellFormed) : s.Marks s.withOverrides where
  left := hs
  right := withOverrides_wellFormed hs
  isPartial := rfl
  classes := rfl
  item := map_foldl_noteOverridden (fun ids item => by
    unfold noteIn Item.unmarked Payload.unmarked
    cases hp : item.payload with
    | method info => rfl
    | _ => rw [hp]) s.overrides s.items

theorem with_serial (h : s.Marks s') (serial : Nat) : s.Marks { s' with serial } :=
  ⟨h.left, h.right, h.isPartial, h.classes, h.item⟩

theorem change (h : s.Marks s') (change : FlagChange) : s.Marks (s'.change change) where
  left := h.left
  right := change_wellFormed h.right change
  isPartial := by rw [change_eq, ← h.isPartial]
  classes := by rw [change_eq, ← h.classes]
  item i := by
    rw [getElem?_change, Option.map_map, ← h.item i]
    refine congrArg (Option.map · s'.items[i]?) (funext fun item => ?_)
    unfold Function.comp
    split <;> rfl

theorem changes (h : s.Marks s') (changes : List FlagChange) :
    s.Marks (changes.foldl Surface.change s') := by
  induction changes generalizing s' with
  | nil => exact h
  | cons change rest ih => exact ih (h.change change)

end Marks

/-! ## What is noted in a built surface -/

theorem payload_foldl_change (changes : List FlagChange) (s : Surface) (i : Nat) :
    (changes.foldl change s).items[i]?.map Item.payload = s.items[i]?.map Item.payload := by
  induction changes generalizing s with
  | nil => rfl
  | cons c rest ih =>
    rw [List.foldl_cons, ih, getElem?_change, Option.map_map]
    refine congrArg (Option.map · s.items[i]?) (funext fun item => ?_)
    unfold Function.comp
    split <;> rfl

end Surface

namespace Recipe

variable (r : Recipe) (serial : Nat) (location : String)

theorem copied_wellFormed : (r.draft location).toSurface.withInheritedCopies.WellFormed :=
  (withInheritedCopies_keeps (r.toSurface_wellFormed location)).right

/-- The finished surface is the one with copies, marked. -/
theorem copied_marks_build :
    (r.draft location).toSurface.withInheritedCopies.Marks (r.build serial location) :=
  ((Marks.withOverrides (r.copied_wellFormed location)).with_serial serial).changes r.changes

end Recipe

/-- What is noted in a method is what its class finds for it in the finished surface. -/
theorem Surface.Built.noted {s : Surface} {c m : Decl} (hs : s.Built) (hc : s.Declares c)
    (hclass : c.asClass?.isSome) (hm : m ∈ c.methods) : ∃ info, m.item.payload = .method info ∧
      info.overridden = s.overriddenBy (s.directSupertypes c) m := by
  obtain ⟨r, serial, location, rfl⟩ := hs
  have hmarks := r.copied_marks_build serial location
  obtain ⟨c₀, hcc⟩ := hmarks.exists_left hc
  obtain ⟨m₀, hm₀, hmm⟩ := exists_mem_left (hmarks.methods hcc) hm
  have hclass₀ : c₀.asClass?.isSome := hmarks.isSome_asClass? hcc ▸ hclass
  obtain ⟨info, _, hnoted⟩ := payload_withOverrides hmarks.left hcc.left hclass₀ hm₀
  have hpayload : (r.build serial location).items[m₀.id.index]?.map Item.payload = _ :=
    payload_foldl_change r.changes { (r.draft location).finish with serial } m₀.id.index
  have hfinished := hpayload.trans hnoted
  rw [← hmm.id, hmm.right.getElem?, Option.map_some, Option.some.injEq] at hfinished
  exact ⟨_, hfinished, (hmarks.overriddenBy hcc hmm).symm⟩

end ApiSurface
