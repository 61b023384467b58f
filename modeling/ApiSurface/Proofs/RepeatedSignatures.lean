import ApiSurface.Proofs.ExposedMembers
import ApiSurface.Proofs.LoadedSurfaces
import ApiSurface.Proofs.Stability

/-! # Repeated signatures

A class does not take a method that says the same as the first one it exposes that matches. A method that
matches and says something else hides whatever stands behind it, so a signature that a class exposes already
is repeated there, and only there. -/
namespace ApiSurface

open Arena Surface

namespace Decl

/-- The method that this one is a copy of, or the method itself if it is no copy. -/
def origin (d : Decl) : Decl := ((d.asMethod?.bind (·.inheritedMethod)).bind d.surface.decl?).getD d

/-- The method says the same as `e`, which it matches. -/
def Repeats (m e : Decl) : Prop := e.signatureMatches m = true ∧ e.sameSignature m true = true

/-- The method matches `e` and says something else. -/
def Resembles (m e : Decl) : Prop := e.signatureMatches m = true ∧ e.sameSignature m true = false

/-- What the first of the earlier methods that the method matches has to do with the others. -/
structure StandsOut (m : Decl) (earlier : List Decl) : Prop where
  first : ∀ e, earlier.find? (fun e => e.signatureMatches m) = some e → m.Resembles e
  repeats_iff : (∃ e ∈ earlier, m.Repeats e) ↔
    ∃ rival e, [rival, e].Sublist earlier ∧ m.Resembles rival ∧ m.Repeats e

/-- The parameter types are what they were where the method comes from, after erasure. -/
def keepsErasures (d : Decl) : Bool :=
  d.parameterTypes.all fun type => type.erasureIn d.typeScope == type.erasureIn d.origin.typeScope

variable {m : Decl} {earlier : List Decl}

/-! ## Methods that say the same -/

theorem all_congr_of_mem {α : Type} {l : List α} {p q : α → Bool} (h : ∀ a ∈ l, p a = q a) :
    l.all p = l.all q := by
  rw [Bool.eq_iff_iff, List.all_eq_true, List.all_eq_true]
  exact forall₂_congr fun a ha => by rw [h a ha]

/-- The declarations are methods that differ in nothing that a comparison of signatures looks at. -/
structure SpeaksAs (d o : Decl) : Prop where
  isPartial : d.surface.isPartial = o.surface.isPartial
  method : ∃ info info', d.asMethod? = some info ∧ o.asMethod? = some info' ∧ info.name = info'.name ∧
    info.returnType = info'.returnType ∧ info.throws = info'.throws
  flags : d.flags = o.flags
  modifiers : d.modifiers = o.modifiers
  parameterTypes : d.parameterTypes = o.parameterTypes
  erasures : ∀ type ∈ d.parameterTypes, type.erasureIn d.typeScope = type.erasureIn o.typeScope

namespace SpeaksAs

variable {d o d' o' : Decl}

theorem signatureMatches (h : d.SpeaksAs o) (h' : d'.SpeaksAs o') :
    d.signatureMatches d' = o.signatureMatches o' := by
  obtain ⟨info, info₁, hinfo, hinfo₁, hname, _⟩ := h.method
  obtain ⟨info', info₁', hinfo', hinfo₁', hname', _⟩ := h'.method
  have hagrees : ∀ x ∈ o.parameterTypes.zip o'.parameterTypes,
      parameterAgrees d d' x.1 x.2 = parameterAgrees o o' x.1 x.2 := by
    intro x hx
    obtain ⟨hleft, hright⟩ := List.of_mem_zip hx
    unfold parameterAgrees
    rw [h.erasures x.1 (h.parameterTypes ▸ hleft), h'.erasures x.2 (h'.parameterTypes ▸ hright),
      h.isPartial, h'.isPartial]
  unfold Decl.signatureMatches
  rw [hinfo, hinfo', hinfo₁, hinfo₁', h.parameterTypes, h'.parameterTypes]
  dsimp only
  rw [hname, hname', all_congr_of_mem hagrees]

theorem sameSignature (h : d.SpeaksAs o) (h' : d'.SpeaksAs o') :
    d.sameSignature d' true = o.sameSignature o' true := by
  obtain ⟨info, info₁, hinfo, hinfo₁, _, hreturn, hthrows⟩ := h.method
  obtain ⟨info', info₁', hinfo', hinfo₁', _, hreturn', hthrows'⟩ := h'.method
  have herasures : ∀ x ∈ o.parameterTypes.zip o'.parameterTypes,
      (x.1.erasureIn d.typeScope == x.2.erasureIn d'.typeScope) =
        (x.1.erasureIn o.typeScope == x.2.erasureIn o'.typeScope) := by
    intro x hx
    obtain ⟨hleft, hright⟩ := List.of_mem_zip hx
    rw [h.erasures x.1 (h.parameterTypes ▸ hleft), h'.erasures x.2 (h'.parameterTypes ▸ hright)]
  unfold Decl.sameSignature
  rw [hinfo, hinfo', hinfo₁, hinfo₁', h.parameterTypes, h'.parameterTypes, h.flags, h'.flags,
    h.modifiers, h'.modifiers]
  simp only [if_true]
  rw [hreturn, hreturn', hthrows, hthrows', all_congr_of_mem herasures]

end SpeaksAs

/-! ## Repetitions -/

/-- A method that is repeated behind the first match is behind one that it hides. -/
theorem standsOut_of_first
    (h : ∀ e, earlier.find? (fun e => e.signatureMatches m) = some e → m.Resembles e) :
    m.StandsOut earlier where
  first := h
  repeats_iff := by
    constructor
    · rintro ⟨e, he, hrepeats⟩
      obtain ⟨rival, hrival⟩ := Option.isSome_iff_exists.mp
        (List.find?_isSome.mpr ⟨e, he, hrepeats.1⟩ :
          (earlier.find? fun e => e.signatureMatches m).isSome = true)
      have hresembles := h rival hrival
      obtain ⟨_, front, back, rfl, hfront⟩ := List.find?_eq_some_iff_append.mp hrival
      have hback : e ∈ back := by
        rcases List.mem_append.mp he with hmem | hmem
        · have hno := hfront e hmem
          rw [hrepeats.1] at hno
          cases hno
        · rcases List.mem_cons.mp hmem with rfl | hmem
          · exact (Bool.false_ne_true (hresembles.2.symm.trans hrepeats.2)).elim
          · exact hmem
      refine ⟨rival, e, ?_, hresembles, hrepeats⟩
      exact ((List.singleton_sublist.mpr hback).cons_cons rival).trans (List.sublist_append_right _ _)
    · rintro ⟨rival, e, hsublist, _, hrepeats⟩
      exact ⟨e, hsublist.subset (List.mem_cons_of_mem _ (List.mem_singleton_self e)), hrepeats⟩

end Decl

namespace Surface

variable {m : Decl} {exposed methods before after earlier : List Decl}

/-! ## The greedy choice -/

/-- A method is taken only if the first exposed one that it matches says something else. -/
theorem isExposed_of_newMethods (h : newMethods exposed methods = before ++ m :: after) :
    isExposed (exposed ++ before) m = false := by
  induction methods generalizing exposed before with
  | nil =>
    rw [newMethods] at h
    exact (List.append_ne_nil_of_right_ne_nil _ (List.cons_ne_nil _ _) h.symm).elim
  | cons method rest ih =>
    rw [newMethods] at h
    split at h
    · next htaken =>
      cases before with
      | nil =>
        obtain ⟨rfl, _⟩ := List.cons.inj h
        rw [List.append_nil]
        exact Bool.not_eq_eq_eq_not.mp (Bool.and_eq_true_iff.mp htaken).2
      | cons b before =>
        obtain ⟨rfl, hrest⟩ := List.cons.inj h
        have hexposed := ih hrest
        rwa [List.append_assoc, List.singleton_append] at hexposed
    · exact ih h

theorem standsOut_of_isExposed (h : isExposed earlier m = false) : m.StandsOut earlier := by
  refine Decl.standsOut_of_first fun e he => ?_
  have hmatches := List.find?_some he
  refine ⟨hmatches, ?_⟩
  rwa [isExposed, he, Option.any_some] at h

/-- What is exposed is asked for in turn. -/
theorem isExposed_of_forall₂ {R : Decl → Decl → Prop} {earlier' : List Decl} {m' : Decl}
    (h : List.Forall₂ R earlier earlier')
    (hmatches : ∀ e e', R e e' → e'.signatureMatches m' = e.signatureMatches m)
    (hsame : ∀ e e', R e e' → e'.sameSignature m' true = e.sameSignature m true) :
    isExposed earlier' m' = isExposed earlier m :=
  any_of_rel (find?_rel h hmatches) hsame

/-! ## Drafts hold no copies -/

end Surface

def Item.IsDeclared (item : Item) : Prop :=
  ∀ info, item.payload = .method info → info.inheritedMethod = none ∧ info.isInherited = false

namespace Draft

theorem isDeclared_linkClass (slot : Slot) (id : ItemId) (item : Item) (h : item.IsDeclared) :
    (linkClass slot id item).IsDeclared := by
  unfold Item.IsDeclared linkClass
  cases hp : item.payload with
  | method info => exact fun info' hinfo => h info' (hp.trans hinfo)
  | _ => exact fun info' hinfo => nomatch hinfo

theorem isDeclared_linkPackage (id : ItemId) (item : Item) (h : item.IsDeclared) :
    (linkPackage id item).IsDeclared := by
  unfold Item.IsDeclared linkPackage
  cases hp : item.payload with
  | method info => exact fun info' hinfo => h info' (hp.trans hinfo)
  | _ => exact fun info' hinfo => nomatch hinfo

theorem stable_isDeclared : Stable fun d => Arena.Holds Item.IsDeclared d.items where
  package d name flags isStub h := h.push fun _ hinfo => nomatch hinfo
  ofClass d package outer spec h := by
    rw [pushClass_items]
    exact h.withClass (fun _ hinfo => nomatch hinfo) (isDeclared_linkPackage _) (isDeclared_linkClass _ _)
  method d owner info isConstructor spec h := by
    rw [pushMethod_items]
    refine h.withMember (fun info' hinfo => ?_) (fun item hitem info' hinfo => ?_) (isDeclared_linkClass _ _)
    · cases isConstructor with
      | true => cases hinfo
      | false => cases hinfo; exact ⟨rfl, rfl⟩
    · obtain ⟨_, hparameter⟩ := payload_parameterItems hitem
      rw [hparameter] at hinfo
      cases hinfo
  field d owner spec h := by
    rw [pushField_items]
    exact h.withMember (fun _ hinfo => nomatch hinfo) (List.forall_mem_nil _) (isDeclared_linkClass _ _)

end Draft

theorem isDeclared_canonicalItem (item : Item) (h : item.IsDeclared) :
    (canonicalItem item).IsDeclared := by
  unfold Item.IsDeclared canonicalItem
  cases hp : item.payload with
  | method info =>
    intro info' hinfo
    cases hinfo
    exact h info hp
  | _ => exact fun info' hinfo => nomatch hinfo

/-- Before its copies are added a surface has none. -/
theorem Recipe.isDeclared_toSurface (r : Recipe) (location : String) :
    Holds Item.IsDeclared (r.draft location).toSurface.items :=
  (Draft.stable_isDeclared.draft r fun i item h => by simp at h).map isDeclared_canonicalItem

/-! ## Origins -/

namespace Surface

variable {s t : Surface} {c e m x : Decl} {before after : List Decl} {id : ItemId}

/-- The method `e` is where `y` comes from. -/
structure IsOrigin (e y : Decl) : Prop where
  namesake : e.Namesake y.origin
  speaksAs : y.keepsErasures = true → y.SpeaksAs y.origin

theorem exists_method (h : m.item.payload.role = .method) : ∃ info, m.item.payload = .method info := by
  cases hp : m.item.payload with
  | method info => exact ⟨info, rfl⟩
  | _ => rw [hp] at h; cases h

/-- A method that is declared comes from itself. -/
theorem exists_isOrigin_of_declared (hk : s.Keeps t) (hdeclared : Holds Item.IsDeclared s.items)
    (hothers : ∃ overridden, t.items[e.id.index]? = some (noteIn overridden e.item))
    (he : s.Declares e) (hrole : e.item.payload.role = .method) :
    ∃ y, t.decl? e.id = some y ∧ IsOrigin e y ∧ y.isInherited = false := by
  obtain ⟨info, hp⟩ := exists_method hrole
  obtain ⟨hnone, hinherited⟩ := hdeclared _ _ he.getElem? info hp
  obtain ⟨overridden, hitem⟩ := hothers
  have hy : t.Declares ⟨t, e.id, noteIn overridden e.item⟩ := declares_of_getElem? hitem
  have hmethod : (⟨t, e.id, noteIn overridden e.item⟩ : Decl).asMethod? =
      some { info with overridden } := by
    rw [Decl.asMethod?, noteIn, hp]
  have horigin : (⟨t, e.id, noteIn overridden e.item⟩ : Decl).origin =
      ⟨t, e.id, noteIn overridden e.item⟩ := by
    rw [Decl.origin, hmethod, Option.bind_some, hnone, Option.bind_none, Option.getD_none]
  refine ⟨_, hy, ⟨?_, fun _ => ?_⟩, ?_⟩
  · rw [horigin]
    exact hk.namesake he hy rfl
  · rw [horigin]
    exact ⟨rfl, ⟨_, _, hmethod, hmethod, rfl, rfl, rfl⟩, rfl, rfl, rfl, fun _ _ => rfl⟩
  · rw [Decl.isInherited, noteIn, hp]
    exact hinherited

theorem parameterType?_copiedParameter (item : Item) (method id : ItemId) :
    (item.copiedParameter method id).parameterType? = item.parameterType? := rfl

/-- A copy has the parameter types of the member. -/
theorem parameterTypes_of_copies {parameters : List ItemId} (hm : s.Declares m) {items : Array Item}
    (h : List.Forall₂ (fun p q => items[q.index]? = some (p.item.copiedParameter id q)) m.parameters
      parameters) :
    (parameters.filterMap fun q => items[q.index]?.bind Item.parameterType?) = m.parameterTypes := by
  rw [parameterTypes_eq_filterMap hm rfl, List.filterMap_map]
  generalize m.parameters = ps at h
  induction h with
  | nil => rfl
  | @cons p q _ _ hpq _ ih =>
    rw [List.filterMap_cons, List.filterMap_cons, hpq, Option.bind_some,
      parameterType?_copiedParameter, ih]
    rfl

/-- A copy comes from the member that it copies. -/
theorem exists_isOrigin_of_copy (hk : s.Keeps t) (hm : s.Declares m)
    (hrole : m.item.payload.role = .method) (h : HasCopy t.items c m id) :
    ∃ x, t.decl? id = some x ∧ IsOrigin m x ∧ x.isInherited = true := by
  obtain ⟨info, hp⟩ := exists_method hrole
  obtain ⟨parameters, overridden, hitem, hparameters⟩ := h
  have hx : t.Declares ⟨t, id, m.copiedItem c id parameters overridden⟩ := declares_of_getElem? hitem
  have hpayload : (m.copiedItem c id parameters overridden).payload = .method
      { info with
        inheritedFrom := m.item.parent
        inheritedMethod := some m.id
        isInherited := true
        parameters
        overridden } := by
    rw [Decl.copiedItem, Decl.copiedPayload, hp]
  have hmethod : (⟨t, id, m.copiedItem c id parameters overridden⟩ : Decl).asMethod? = some
      { info with
        inheritedFrom := m.item.parent
        inheritedMethod := some m.id
        isInherited := true
        parameters
        overridden } := by
    rw [Decl.asMethod?, hpayload]
  obtain ⟨o, ho, hoid, hn⟩ := hk.exists_namesake hm
  have horigin : (⟨t, id, m.copiedItem c id parameters overridden⟩ : Decl).origin = o := by
    have hdecl : t.decl? m.id = some o := hoid ▸ ho
    rw [Decl.origin, hmethod, Option.bind_some, Option.bind_some, hdecl, Option.getD_some]
  have htypes : (⟨t, id, m.copiedItem c id parameters overridden⟩ : Decl).parameterTypes =
      o.parameterTypes := by
    rw [hn.parameterTypes, parameterTypes_eq hx, hpayload]
    exact parameterTypes_of_copies hm hparameters
  refine ⟨_, hx, ⟨horigin ▸ hn, fun hkeeps => ?_⟩, ?_⟩
  · have hmo : m.asMethod? = some info := by rw [Decl.asMethod?, hp]
    obtain ⟨info', hinfo', hbare⟩ : ∃ info', o.asMethod? = some info' ∧ info'.bare = info.bare := by
      rcases rel_cases hn.asMethod? with ⟨hnone, _⟩ | ⟨_, info', hsome, hsome', hbare⟩
      · cases hmo.symm.trans hnone
      · cases hmo.symm.trans hsome
        exact ⟨info', hsome', hbare⟩
    have hall := List.all_eq_true.mp hkeeps
    rw [horigin] at hall ⊢
    exact
      { isPartial := by rw [ho.surface]
        method := ⟨_, info', hmethod, hinfo', (congrArg MethodInfo.name hbare).symm,
          (congrArg MethodInfo.returnType hbare).symm, (congrArg MethodInfo.throws hbare).symm⟩
        flags := hn.flags.symm
        modifiers := hn.modifiers.symm
        parameterTypes := htypes
        erasures := fun type htype => beq_iff_eq.mp (hall type htype) }
  · rw [Decl.isInherited, hpayload]
    rfl

/-! ## What a class lists -/

theorem forall₂_decls {α : Type} {R : α → Decl → Prop} {l : List α} {ids : List ItemId}
    (h : List.Forall₂ (fun a id => ∃ y, t.decl? id = some y ∧ R a y) l ids) :
    List.Forall₂ R l (t.decls ids) := by
  induction h with
  | nil => exact .nil
  | cons hat _ ih =>
    obtain ⟨y, hy, hR⟩ := hat
    unfold decls at ih ⊢
    rw [List.filterMap_cons_some hy]
    exact .cons hR ih

theorem exists_split_of_forall₂ {α β : Type} {R : α → β → Prop} {l : List α} {front back : List β} {b : β}
    (h : List.Forall₂ R l (front ++ b :: back)) :
    ∃ front' a back', l = front' ++ a :: back' ∧ List.Forall₂ R front' front ∧ R a b := by
  obtain ⟨a, back', hab, _, hdrop⟩ :=
    List.forall₂_cons_right_iff.mp (List.forall₂_drop_append l front (b :: back) h)
  have hsplit : l = l.take front.length ++ a :: back' := by rw [← hdrop, List.take_append_drop]
  exact ⟨_, a, back', hsplit, List.forall₂_take_append l front (b :: back) h, hab⟩

/-- What a class lists comes from what it declares and from what it takes, in this order. -/
theorem exists_origins (hs : s.WellFormed) (hdeclared : Holds Item.IsDeclared s.items)
    (hc : s.completed.Declares c) (hclass : c.asClass?.isSome) : ∃ c₀ own copies, s.Declares c₀ ∧
      c.methods = own ++ copies ∧
      List.Forall₂ (fun e y => IsOrigin e y ∧ y.isInherited = false) c₀.methods own ∧
      List.Forall₂ (fun m x => IsOrigin m x ∧ x.isInherited = true)
        ((s.exposedBy c₀).filter fun m => m.asMethod?.isSome) copies := by
  have hk := completed_keeps hs
  obtain ⟨placed, hplaced, h⟩ := exists_takes hs
  obtain ⟨c₀, hc₀, hclass₀, -⟩ := (classes_iff hs).mp
    ((classes_iff hk.right).mpr ⟨c, hc, hclass, rfl⟩ : s.completed.classes[c.name]? = some c.id)
  obtain ⟨-, hid, -⟩ := decl?_eq_some hc₀
  have hc₀ : s.Declares c₀ := by rwa [Declares, hid]
  have hitem : c.item = c₀.item.listing (placesOf placed c₀ fun m => m.asMethod?.isSome)
      (placesOf placed c₀ fun m => m.asField?.isSome) := by
    have hat := h.getElem?_class hc₀ hclass₀
    rw [hid] at hat
    exact Option.some.inj (hc.getElem?.symm.trans hat)
  have hmethods : c.methods = s.completed.decls (c₀.item.payload.slot .methods) ++
      s.completed.decls (placesOf placed c₀ fun m => m.asMethod?.isSome) := by
    rw [Decl.methods_eq, Decl.members, hc.surface, hitem, (Item.slot_listing hclass₀).1]
    exact List.filterMap_append
  refine ⟨c₀, _, _, hc₀, hmethods, forall₂_decls ?_, forall₂_decls ?_⟩
  · rw [← map_id_members hs hc₀, Decl.methods_eq]
    refine List.forall₂_map_right_iff.mpr (List.forall₂_same.mpr fun e he => ?_)
    have hrole := role_of_member hs hc₀ .method he
    have hde := ((mem_members hs hc₀).mp he).1
    obtain ⟨y, hy, hat⟩ := exists_isOrigin_of_declared hk hdeclared (exists_getElem?_withOverrides
      (h.getElem?_of_ne hde (asClass?_of_member (.inl hrole)))) hde hrole
    exact ⟨y, hy, hat⟩
  · have hcopies := forall₂_withOverrides hs
      (fun m hm => declares_of_mem_exposedBy hs hc₀ (List.mem_of_mem_filter hm))
      (h.forall₂_placesOf hs hplaced hc₀ hclass₀ fun m => m.asMethod?.isSome)
    have hroles : ∀ m ∈ (s.exposedBy c₀).filter fun m => m.asMethod?.isSome,
        s.Declares m ∧ m.item.payload.role = .method := by
      intro m hm
      obtain ⟨hm, htest⟩ := List.mem_filter.mp hm
      refine ⟨declares_of_mem_exposedBy hs hc₀ hm, (role_of_mem_exposedBy hs hc₀ hm).resolve_right fun h => ?_⟩
      have hfield := asMethod?_of_asField? (m.isSome_asField?.mpr h)
      exact Bool.false_ne_true (hfield.symm.trans htest)
    refine ((List.forall₂_and_left _ _).mpr ⟨hroles, hcopies⟩).imp ?_
    rintro m id ⟨⟨hm, hrole⟩, hcopy⟩
    exact exists_isOrigin_of_copy hk hm hrole hcopy

/-- The first method that a copy matches says something else, by what the methods were where they come
from, and by what they are if erasures are kept. -/
theorem standsOut_of_methods (hs : s.WellFormed) (hdeclared : Holds Item.IsDeclared s.items)
    (hc : s.completed.Declares c) (hsplit : c.methods = before ++ x :: after)
    (hx : x.isInherited = true) : x.origin.StandsOut (before.map Decl.origin) ∧
      ((∀ y ∈ before ++ [x], y.keepsErasures = true) → x.StandsOut before) := by
  have hclass : c.asClass?.isSome := by
    unfold Decl.methods at hsplit
    cases hinfo : c.asClass? with
    | none =>
      rw [hinfo] at hsplit
      exact (List.append_ne_nil_of_right_ne_nil _ (List.cons_ne_nil _ _) hsplit.symm).elim
    | some info => rfl
  obtain ⟨c₀, own, copies, hc₀, hmethods, hown, hcopies⟩ := exists_origins hs hdeclared hc hclass
  -- `x` is a copy, so it stands behind all that is declared
  have hnot : x ∉ own := by
    intro hmem
    obtain ⟨_, _, -, hno⟩ := exists_mem_left hown hmem
    exact Bool.false_ne_true (hno.symm.trans hx)
  obtain ⟨mid, rfl, rfl⟩ : ∃ mid, before = own ++ mid ∧ copies = mid ++ x :: after := by
    rcases List.append_eq_append_iff.mp (hmethods.symm.trans hsplit) with hmid | ⟨rest, hrest, hafter⟩
    · exact hmid
    · cases rest with
      | nil => exact ⟨[], by simpa using hrest.symm, hafter.symm⟩
      | cons a rest =>
        obtain ⟨rfl, _⟩ := List.cons.inj hafter
        exact (hnot (hrest ▸ List.mem_append_right _ List.mem_cons_self)).elim
  obtain ⟨taken, m, rest, htaken, hmid, hm, -⟩ := exists_split_of_forall₂ hcopies
  have hexposed : isExposed (c₀.methods ++ taken) m = false := by
    cases hhidden : c₀.isEffectively .hidden with
    | true =>
      rw [exposedBy_of_hidden hhidden, List.filter_nil] at htaken
      exact (List.append_ne_nil_of_right_ne_nil _ (List.cons_ne_nil _ _) htaken.symm).elim
    | false =>
      rw [filter_asMethod?_exposedBy hs hc₀ hhidden] at htaken
      exact isExposed_of_newMethods htaken
  have horigins : List.Forall₂ IsOrigin (c₀.methods ++ taken) (own ++ mid) :=
    List.rel_append (hown.imp fun _ _ h => h.1) (hmid.imp fun _ _ h => h.1)
  have hsources : isExposed ((own ++ mid).map Decl.origin) x.origin = false := by
    rw [← hexposed]
    refine isExposed_of_forall₂ (R := Decl.Namesake) (List.forall₂_map_right_iff.mpr
      (horigins.imp fun _ _ h => h.namesake)) ?_ ?_
    · exact fun e e' he => he.signatureMatches hm.namesake
    · exact fun e e' he => he.sameSignature hm.namesake true
  refine ⟨standsOut_of_isExposed hsources, fun hkeeps => standsOut_of_isExposed ?_⟩
  obtain ⟨hearlier, hlast⟩ := List.forall_mem_append.mp hkeeps
  have hspeaks := hm.speaksAs (hlast x (List.mem_singleton_self x))
  rw [← hsources]
  refine isExposed_of_forall₂ (R := fun o y => y.SpeaksAs o) (List.forall₂_map_left_iff.mpr
    (List.forall₂_same.mpr fun y hy => ?_)) ?_ ?_
  · obtain ⟨_, _, horigin⟩ := exists_mem_left horigins hy
    exact horigin.speaksAs (hearlier y hy)
  · exact fun o y hy => hy.signatureMatches hspeaks
  · exact fun o y hy => hy.sameSignature hspeaks

end Surface

/-- A copy that a class lists repeats a method that the class lists before it, in the sense of what they
were where they come from, iff a method that the copy matches and that says something else stands before
the repeated one. In the sense of what they are in the class the same holds if the copies keep the erasures
of their parameter types. -/
theorem Recipe.copies_standOut (r : Recipe) (location : String) (c : Decl)
    (hc : (r.draft location).finish.Declares c) (before after : List Decl) (x : Decl)
    (hsplit : c.methods = before ++ x :: after) (hx : x.isInherited = true) :
    x.origin.StandsOut (before.map Decl.origin) ∧
      ((∀ y ∈ before ++ [x], y.keepsErasures = true) → x.StandsOut before) :=
  standsOut_of_methods (Draft.toSurface_wellFormed (r.draft_wellFormed location))
    (r.isDeclared_toSurface location) hc hsplit hx

/-- Whether the methods are three, the last of them a copy that repeats the one before it. -/
def Decl.endInRepetition : List Decl → Bool
  | [a, b, x] =>
    x.isInherited && (b.signatureMatches x && b.sameSignature x true) &&
      ([a, b] ++ [x]).all Decl.keepsErasures
  | _ => false

theorem exists_repetition {t : Surface} (ht : t.WellFormed) {name : String}
    (h : (t.findClass? name).any fun c => Decl.endInRepetition c.methods) :
    ∃ c a b x, t.Declares c ∧ c.methods = [a, b] ++ x :: [] ∧ x.isInherited = true ∧ x.Repeats b ∧
      ∀ y ∈ [a, b] ++ [x], y.keepsErasures = true := by
  obtain ⟨c, hc, h⟩ := (Option.any_eq_true ..).mp h
  unfold Decl.endInRepetition at h
  split at h
  · next a b x hmethods =>
    simp only [Bool.and_eq_true] at h
    obtain ⟨⟨hinherited, hrepeats⟩, hkeeps⟩ := h
    exact ⟨c, a, b, x, ((findClass?_eq_some ht).mp hc).1, hmethods, hinherited, hrepeats,
      List.all_eq_true.mp hkeeps⟩
  · cases h

/-- A class whose method has a narrower result than the methods of its two hidden superclasses, which say
the same. -/
def Recipe.narrowed : Recipe :=
  let m (type : String) : MethodSpec := { MethodSpec.published "m" with returnType := some ⟨type⟩ }
  { calls := [.packageSpec { name := "p", classes := [
      { name := "p.C", modifiers := .ofVisibility .publicAccess, superclass := some ⟨"p.Near"⟩
        methods := [m "java.lang.Integer"] },
      { name := "p.Near", modifiers := .ofVisibility .publicAccess, superclass := some ⟨"p.Far"⟩
        flags := { hidden := true }, methods := [m "java.lang.Number"] },
      { name := "p.Far", modifiers := .ofVisibility .publicAccess, flags := { hidden := true }
        methods := [m "java.lang.Number"] }] }] }

/-- The class takes both, since its own method hides the copy of the nearer one from the farther one. -/
theorem Recipe.copies_standOut_narrowed :
    ∃ c a b x, (Recipe.narrowed.draft "").finish.Declares c ∧ c.methods = [a, b, x] ∧
      x.isInherited = true ∧ x.Repeats b ∧ x.origin.StandsOut [a.origin, b.origin] ∧
      x.StandsOut [a, b] := by
  have hrepetition : (((Recipe.narrowed.draft "").finish.findClass? "p.C").any fun c =>
      Decl.endInRepetition c.methods) = true := by decide +kernel
  obtain ⟨c, a, b, x, hc, hmethods, hinherited, hrepeats, hkeeps⟩ :=
    exists_repetition (finish_wellFormed (Recipe.narrowed.draft_wellFormed "")) hrepetition
  obtain ⟨horigins, hstandsOut⟩ := Recipe.copies_standOut _ _ c hc [a, b] [] x hmethods hinherited
  exact ⟨c, a, b, x, hc, hmethods, hinherited, hrepeats, horigins, hstandsOut hkeeps⟩

/-- A class that declares two methods which do not match each other. A hidden superclass declares a method
that is written like the one and says the same as the other. -/
def Snapshot.shadowed : Snapshot :=
  let m (type : String) (typeParameters : List TypeParameter) : MethodSpec :=
    { MethodSpec.published "m" with typeParameters, parameters := [{ type := ⟨type⟩ }] }
  { packages := [{ name := "p", classes := [
      { name := "p.C", modifiers := .ofVisibility .publicAccess, superclass := some ⟨"p.H<T>"⟩
        typeParameters := [{ name := "T" }]
        methods := [m "T" [{ name := "T", bounds := [⟨"java.lang.Number"⟩] }], m "java.lang.Object" []] },
      { name := "p.H", modifiers := .ofVisibility .publicAccess, flags := { hidden := true }
        typeParameters := [{ name := "T" }], methods := [m "T" []] }] }] }

/-- That no class declares two methods that match each other does not keep a class from taking a copy that
repeats what it declares. -/
theorem Snapshot.copies_repeat_shadowed : ¬∀ (snapshot : Snapshot) (readFrom : String) (t : Surface),
    snapshot.toSurface readFrom = .ok t →
    (∀ d, t.Declares d → (d.methods.filter fun m => !m.isInherited).Pairwise fun a b =>
      a.signatureMatches b = false ∧ b.signatureMatches a = false) →
    ∀ c, t.Declares c → ∀ before x after, c.methods = before ++ x :: after →
      x.isInherited = true → ∀ e ∈ before, ¬x.Repeats e := by
  intro h
  have hfacts : (Snapshot.shadowed.toSurface "").toOption.any (fun t =>
      (t.findClass? "p.C").any (fun c => Decl.endInRepetition c.methods) &&
        t.allDecls.all fun d => (d.methods.filter fun m => !m.isInherited).Pairwise fun a b =>
          a.signatureMatches b = false ∧ b.signatureMatches a = false) = true := by decide +kernel
  cases hload : Snapshot.shadowed.toSurface "" with
  | error fault =>
    rw [hload] at hfacts
    cases hfacts
  | ok t =>
    rw [hload] at hfacts
    obtain ⟨hrepetition, hapart⟩ := Bool.and_eq_true_iff.mp hfacts
    have ht : t.WellFormed := Surface.Built.wellFormed ⟨_, _, _, Snapshot.toSurface_eq_build hload⟩
    obtain ⟨c, a, b, x, hc, hmethods, hinherited, hrepeats, -⟩ := exists_repetition ht hrepetition
    refine h .shadowed "" t hload (fun d hd => ?_) c hc [a, b] x [] hmethods hinherited b
      (List.mem_cons_of_mem _ (List.mem_singleton_self b)) hrepeats
    exact of_decide_eq_true (List.all_eq_true.mp hapart d (mem_allDecls.mpr hd))

end ApiSurface
