import Mathlib.Data.Set.Finite.List
import Mathlib.Order.WellFoundedSet
import ApiSurface.Proofs.MemberLookup
import ApiSurface.Proofs.Overriding
import ApiSurface.Proofs.Stability

/-! # Links to what methods override

A method is linked to what it overrides when the surface is finished. Every link comes from a lookup that
starts at a direct supertype and goes up from there, so it leads from a class to a class above it. Where the
references between classes form no cycle the links form none either. -/
namespace ApiSurface

open Arena Relation Surface

/-! ## Interfaces and constructors of a built surface -/

/-- The interfaces are in canonical order if the item is a class. -/
def Item.HasCanonicalInterfaces (item : Item) : Prop :=
  ∀ info, item.payload = .ofClass info →
    info.interfaces.Pairwise fun a b => (TypeRef.canonicalOrder a b).isLE

/-- Nothing is noted in the item if it is a constructor. -/
def Item.IsUnmarkedConstructor (item : Item) : Prop :=
  ∀ info, item.payload = .constructor info → info.overridden = []

theorem lasting_hasCanonicalInterfaces : Arena.Lasting Item.HasCanonicalInterfaces where
  ofMember item hrole info hinfo := by
    rw [hinfo] at hrole
    rcases hrole with hrole | hrole <;> cases hrole
  link slot id item h info hinfo := by
    unfold Draft.linkClass at hinfo
    cases hp : item.payload with
    | ofClass info' =>
      rw [hp] at hinfo
      cases hinfo
      have hinterfaces : (Draft.linkInfo slot id info').interfaces = info'.interfaces := by
        cases slot <;> rfl
      rw [hinterfaces]
      exact h info' hp
    | _ => rw [hp] at hinfo; cases hinfo
  same _ _ hpayload _ h info hinfo := h info (hpayload ▸ hinfo)

theorem isUnmarkedConstructor_linkClass (slot : Slot) (id : ItemId) (item : Item)
    (h : item.IsUnmarkedConstructor) : (Draft.linkClass slot id item).IsUnmarkedConstructor := by
  intro info hinfo
  unfold Draft.linkClass at hinfo
  cases hp : item.payload with
  | constructor info' => rw [hp] at hinfo; exact h info (hp.trans hinfo)
  | _ => rw [hp] at hinfo; cases hinfo

theorem lasting_isUnmarkedConstructor : Arena.Lasting Item.IsUnmarkedConstructor where
  ofMember item hrole info hinfo := by
    rw [hinfo] at hrole
    rcases hrole with hrole | hrole <;> cases hrole
  link := isUnmarkedConstructor_linkClass
  same _ _ hpayload _ h info hinfo := h info (hpayload ▸ hinfo)

theorem Draft.stable_isUnmarkedConstructor :
    Draft.Stable fun d => Arena.Holds Item.IsUnmarkedConstructor d.items where
  package d name flags isStub h := h.push fun _ hinfo => by cases hinfo
  ofClass d package outer spec h := by
    rw [pushClass_items]
    refine h.withClass (fun _ hinfo => by cases hinfo) (fun item hitem info hinfo => ?_)
      (isUnmarkedConstructor_linkClass _ _)
    unfold linkPackage at hinfo
    cases hp : item.payload with
    | constructor info' => rw [hp] at hinfo; exact hitem info (hp.trans hinfo)
    | _ => rw [hp] at hinfo; cases hinfo
  method d owner info isConstructor spec h := by
    rw [pushMethod_items]
    refine h.withMember (fun info' hinfo => ?_) (fun item hitem info' hinfo => ?_)
      (isUnmarkedConstructor_linkClass _ _)
    · cases isConstructor <;> cases hinfo
      rfl
    · obtain ⟨_, hparameter⟩ := payload_parameterItems hitem
      rw [hparameter] at hinfo
      cases hinfo
  field d owner spec h := by
    rw [pushField_items]
    exact h.withMember (fun _ hinfo => by cases hinfo) (fun _ hitem => by cases hitem)
      (isUnmarkedConstructor_linkClass _ _)

namespace Surface

variable {s : Surface} {c d e m x : Decl}

theorem Built.interfaces_pairwise (hs : s.Built) (hc : s.Declares c) :
    c.interfaces.Pairwise fun a b => (TypeRef.canonicalOrder a b).isLE := by
  obtain ⟨r, serial, location, rfl⟩ := hs
  have hdraft : Holds Item.HasCanonicalInterfaces (r.draft location).toSurface.items := by
    intro i item hitem info hinfo
    obtain ⟨source, _, rfl⟩ := Option.map_eq_some_iff.mp ((Array.getElem?_map ..).symm.trans hitem)
    unfold canonicalItem at hinfo
    cases hp : source.payload with
    | ofClass info' =>
      rw [hp] at hinfo
      cases hinfo
      exact List.pairwise_mergeSort TypeRef.canonicalOrder_trans TypeRef.canonicalOrder_total _
    | _ => rw [hp] at hinfo; cases hinfo
  have hholds := lasting_hasCanonicalInterfaces.build r serial location hdraft _ _ hc.getElem?
  unfold Decl.interfaces
  cases hinfo : c.asClass? with
  | none => exact .nil
  | some info => exact hholds info (payload_of_asClass? hinfo)

theorem Built.constructor_unmarked (hs : s.Built) (hm : s.Declares m) {info : MethodInfo}
    (hp : m.item.payload = .constructor info) : info.overridden = [] := by
  obtain ⟨r, serial, location, rfl⟩ := hs
  have hdraft : Holds Item.IsUnmarkedConstructor (r.draft location).items :=
    Draft.stable_isUnmarkedConstructor.draft r fun i item h => by simp at h
  have hcanonical : Holds Item.IsUnmarkedConstructor (r.draft location).toSurface.items := by
    refine hdraft.map fun item hitem info hinfo => ?_
    unfold canonicalItem at hinfo
    cases hp : item.payload with
    | constructor info' => rw [hp] at hinfo; cases hinfo; exact hitem info' hp
    | _ => rw [hp] at hinfo; cases hinfo
  exact lasting_isUnmarkedConstructor.build r serial location hcanonical _ _ hm.getElem? info hp

/-! ## The hierarchy -/

/-- The classes that the superclass reference and the interface references of a class lead to, in this
order. -/
def supertypes (s : Surface) (c : Decl) : List Decl :=
  (c.superclass?.toList ++ c.interfaces).filterMap fun type => s.findClass? type.baseName

def HasSupertype (s : Surface) (c above : Decl) : Prop := above ∈ s.supertypes c

/-- References lead from the first class up to the second one, over other classes or not. -/
def IsBelow (s : Surface) : Decl → Decl → Prop := TransGen s.HasSupertype

/-- The references between classes form no cycle. -/
def Acyclic (s : Surface) : Prop := ∀ c, ¬s.IsBelow c c

theorem mem_supertypes : x ∈ s.supertypes c ↔
    ∃ type, (c.superclass? = some type ∨ type ∈ c.interfaces) ∧ s.alone.resolve type = some x := by
  simp only [supertypes, List.mem_filterMap, List.mem_append, Option.mem_toList, View.resolve,
    View.findClass?_alone]

theorem declares_of_mem_supertypes (hs : s.WellFormed) (h : x ∈ s.supertypes c) :
    s.Declares x ∧ x.asClass?.isSome := by
  obtain ⟨type, _, hfind⟩ := List.mem_filterMap.mp h
  obtain ⟨hx, hclass, _⟩ := (findClass?_eq_some hs).mp hfind
  exact ⟨hx, hclass⟩

theorem IsBelow.declares (hs : s.WellFormed) (h : s.IsBelow c x) : s.Declares x ∧ x.asClass?.isSome := by
  cases h with
  | single h => exact declares_of_mem_supertypes hs h
  | tail _ h => exact declares_of_mem_supertypes hs h

/-- Where no class refers to itself, what it refers to are its direct supertypes. -/
theorem directSupertypes_eq (hs : s.WellFormed) (hacyclic : s.Acyclic) (hc : s.Declares c) :
    s.directSupertypes c = s.supertypes c := by
  refine List.filter_eq_self.mpr fun above habove => bne_iff_ne.mpr fun hid => ?_
  obtain rfl := (declares_of_mem_supertypes hs habove).1.eq_of_id hc hid
  exact hacyclic above (.single habove)

/-- A hierarchy without cycles ends, since a surface has finitely many classes. -/
theorem Acyclic.wellFounded (hacyclic : s.Acyclic) :
    WellFounded fun above c => s.IsBelow c above ∧ s.Declares above ∧ s.Declares c := by
  have horder : IsStrictOrder Decl fun above c => s.IsBelow c above :=
    { irrefl := hacyclic, trans := fun _ _ _ hab hbc => hbc.trans hab }
  have hfinite : {d | s.Declares d}.Finite :=
    (List.finite_toSet s.allDecls).subset fun d hd => mem_allDecls.mpr hd
  exact Set.wellFoundedOn_iff.mp (hfinite.wellFoundedOn)

/-! ## Where lookups lead -/

theorem isBelow_of_chainRun {seen : List String} {chain : SuperclassChain}
    (h : s.alone.ChainRun seen d chain) (hx : x ∈ chain.members) : s.IsBelow d x := by
  induction h with
  | top | unknown | repeated => cases hx
  | next hsuper hresolve _ _ ih =>
    have hstep := mem_supertypes.mpr ⟨_, .inl hsuper, hresolve⟩
    rcases List.mem_cons.mp hx with rfl | hx
    · exact .single hstep
    · exact .head hstep (ih hx)

theorem reflTransGen_of_reaches {roots : List Decl} (h : s.alone.Reaches roots x)
    (hroots : ∀ y ∈ roots, ReflTransGen s.HasSupertype d y) :
    ReflTransGen s.HasSupertype d x := by
  induction h with
  | root hmem => exact hroots _ hmem
  | step _ htype hresolve ih => exact ih.tail (mem_supertypes.mpr ⟨_, .inr htype, hresolve⟩)

/-- A method that is found for another one matches it and is one of the class where the lookup starts or of
a class above that. -/
theorem exists_of_findMethod? (hs : s.Built) (hm : m.isConstructor = false)
    (h : s.alone.findMethod? d m true true = some e) : e.signatureMatches m = true ∧
      ∃ x, ReflTransGen s.HasSupertype d x ∧ e ∈ x.methods := by
  have hsound : s.alone.Sound := View.sound_of_built fun t ht => by rwa [List.mem_singleton.mp ht]
  have hhit : ∀ {x : Decl}, x.methods.find? (fun e => e.signatureMatches m && true) = some e →
      e.signatureMatches m = true ∧ e ∈ x.methods := by
    intro x h
    have hmatch := List.find?_some h
    rw [Bool.and_true] at hmatch
    exact ⟨hmatch, List.mem_of_find?_eq_some h⟩
  have hroots : ∀ y ∈ d :: s.alone.searchedChain d true, ReflTransGen s.HasSupertype d y := by
    intro y hy
    rcases List.mem_cons.mp hy with rfl | hy
    · exact .refl
    · have hy := (View.mem_searchedChain.mp hy).2
      exact (isBelow_of_chainRun (hsound.chainRun_superclassChain d) hy).to_reflTransGen
  unfold View.findMethod? at h
  rw [hm, if_neg Bool.false_ne_true, View.searchSupertypes_eq_or, if_pos rfl, Option.or_eq_some_iff,
    Option.or_eq_some_iff] at h
  rcases h with hown | ⟨_, hsuper | ⟨_, hinterface⟩⟩
  · exact ⟨(hhit hown).1, d, .refl, (hhit hown).2⟩
  · obtain ⟨y, hy, hfound⟩ := List.exists_of_findSome?_eq_some hsuper
    exact ⟨(hhit hfound).1, y, hroots y (List.mem_cons_of_mem _ hy), (hhit hfound).2⟩
  · obtain ⟨use, huse, hfound⟩ := List.exists_of_findSome?_eq_some hinterface
    obtain ⟨x, hx, hfound⟩ := Option.bind_eq_some_iff.mp hfound
    obtain ⟨y, hy, huse⟩ := hsound.mem_interfacesAbove.mp huse
    obtain ⟨htype, htarget⟩ := View.mem_interfaceUses.mp huse
    have hx := reflTransGen_of_reaches (hy.step htype (htarget.symm.trans hx)) hroots
    exact ⟨(hhit hfound).1, x, hx, (hhit hfound).2⟩

/-- A link from the method `m` of `c` leads to the method `e` of the class `above`. -/
structure LinkedIn (s : Surface) (c m e above : Decl) : Prop where
  isBelow : s.IsBelow c above
  isMember : e ∈ above.methods
  isOverridable : isOverridable e = true
  isMatch : e.signatureMatches m = true

theorem LinkedIn.declares (h : s.LinkedIn c m e x) (hs : s.WellFormed) : s.Declares e := by
  have he := h.isMember
  rw [Decl.methods_eq] at he
  exact ((mem_members hs (h.isBelow.declares hs).1).mp he).1

/-- What a method overrides through a supertype of its class belongs to a class above its own. -/
theorem exists_linkedIn (hs : s.Built) (hm : m.isConstructor = false) (hd : d ∈ s.supertypes c)
    (h : s.overriddenThrough m d = some e) : ∃ above, s.LinkedIn c m e above := by
  obtain ⟨hfound, hoverridable⟩ := Option.filter_eq_some_iff.mp h
  obtain ⟨hmatch, above, hup, hmem⟩ := exists_of_findMethod? hs hm hfound
  exact ⟨above, .head' hd hup, hmem, hoverridable, hmatch⟩

/-! ## The links of a method -/

/-- The ids of what a method overrides through each of these classes, at most one through each. -/
def contributions (s : Surface) (m : Decl) (supertypes : List Decl) : List ItemId :=
  supertypes.filterMap fun above => (s.overriddenThrough m above).map Decl.id

theorem asMethod?_of_mem_overridden (h : e ∈ m.overridden) :
    ∃ info, m.asMethod? = some info ∧ e ∈ m.surface.decls info.overridden := by
  unfold Decl.overridden at h
  cases hmethod : m.asMethod? with
  | none => rw [hmethod] at h; cases h
  | some info => rw [hmethod] at h; exact ⟨info, rfl, h⟩

theorem Declares.of_mem_overridden (hm : s.Declares m) (h : e ∈ m.overridden) : s.Declares e := by
  obtain ⟨info, _, he⟩ := asMethod?_of_mem_overridden h
  rw [hm.surface] at he
  exact (mem_decls he).2

theorem isSome_asClass?_of_mem_methods (h : m ∈ c.methods) : c.asClass?.isSome := by
  unfold Decl.methods at h
  cases hc : c.asClass? with
  | none => rw [hc] at h; cases h
  | some info => rfl

/-- What is noted in a method are the contributions of the supertypes of its class, each once. -/
theorem Built.noted_eq (hs : s.Built) (hacyclic : s.Acyclic) (hc : s.Declares c) (hm : m ∈ c.methods) :
    ∃ info, m.item.payload = .method info ∧ info.overridden =
      if isOverridable m then (s.contributions m (s.supertypes c)).eraseDups else [] := by
  obtain ⟨info, hp, hnoted⟩ := hs.noted hc (isSome_asClass?_of_mem_methods hm) hm
  rw [overriddenBy, directSupertypes_eq hs.wellFormed hacyclic hc] at hnoted
  exact ⟨info, hp, hnoted⟩

theorem Built.mem_methods (hs : s.Built) (hc : s.Declares c) (hm : m ∈ c.methods) :
    s.Declares m ∧ m.isConstructor = false := by
  rw [Decl.methods_eq] at hm
  have hrole := role_of_member hs.wellFormed hc .method hm
  refine ⟨((mem_members hs.wellFormed hc).mp hm).1, ?_⟩
  unfold Decl.isConstructor
  cases hp : m.item.payload with
  | constructor info => rw [hp] at hrole; cases hrole
  | _ => rfl

/-- No link is broken, and the methods that it leads to are those that the supertypes contribute. -/
theorem Built.map_id_overridden (hs : s.Built) (hacyclic : s.Acyclic) (hc : s.Declares c)
    (hm : m ∈ c.methods) : m.overridden.map Decl.id =
      if isOverridable m then (s.contributions m (s.supertypes c)).eraseDups else [] := by
  obtain ⟨info, hp, hnoted⟩ := hs.noted_eq hacyclic hc hm
  obtain ⟨hdm, hconstructor⟩ := hs.mem_methods hc hm
  have hoverridden : m.overridden = s.decls info.overridden := by
    rw [Decl.overridden, Decl.asMethod?, hp, hdm.surface]
    rfl
  rw [hoverridden, ← hnoted]
  refine map_id_decls fun id hid => ?_
  rw [hnoted] at hid
  split at hid
  · obtain ⟨above, habove, hfound⟩ := List.mem_filterMap.mp (List.mem_eraseDups.mp hid)
    obtain ⟨e, he, rfl⟩ := Option.map_eq_some_iff.mp hfound
    obtain ⟨_, hlink⟩ := exists_linkedIn hs hconstructor habove he
    exact Option.isSome_iff_exists.mpr ⟨e, hlink.declares hs.wellFormed⟩
  · cases hid

/-- Whatever a method is linked to can be overridden and belongs to a class above its own. -/
theorem Built.exists_linkedIn (hs : s.Built) (hc : s.Declares c) (hm : m ∈ c.methods) (he : e ∈ m.overridden) :
    Surface.isOverridable m = true ∧ ∃ above, s.LinkedIn c m e above := by
  obtain ⟨hdm, hconstructor⟩ := hs.mem_methods hc hm
  obtain ⟨info, hp, hnoted⟩ := hs.noted hc (isSome_asClass?_of_mem_methods hm) hm
  obtain ⟨info', hinfo, hmem⟩ := asMethod?_of_mem_overridden he
  rw [Decl.asMethod?, hp] at hinfo
  cases hinfo
  have hid := (mem_decls hmem).1
  rw [hnoted, overriddenBy] at hid
  split at hid
  · next hoverridable =>
    obtain ⟨d, hd, hfound⟩ := List.mem_filterMap.mp (List.mem_eraseDups.mp hid)
    obtain ⟨e', he', hsame⟩ := Option.map_eq_some_iff.mp hfound
    obtain ⟨above, hlink⟩ := Surface.exists_linkedIn hs hconstructor (List.mem_of_mem_filter hd) he'
    obtain rfl := (hlink.declares hs.wellFormed).eq_of_id (hdm.of_mem_overridden he) hsame
    exact ⟨hoverridable, above, hlink⟩
  · cases hid

/-- Only methods of classes are linked to anything, and constructors are not. -/
theorem Built.exists_mem_methods_of_overridden (hs : s.Built) (hm : s.Declares m) (he : e ∈ m.overridden) :
    ∃ c, s.Declares c ∧ m ∈ c.methods := by
  obtain ⟨info, hmethod, hmem⟩ := asMethod?_of_mem_overridden he
  have hconstructor : m.isConstructor = false := by
    unfold Decl.isConstructor
    unfold Decl.asMethod? at hmethod
    cases hp : m.item.payload with
    | constructor info' =>
      rw [hp] at hmethod
      cases hmethod
      rw [hs.constructor_unmarked hm hp] at hmem
      cases hmem
    | _ => rfl
  obtain ⟨c, hc, _, hmethods⟩ :=
    hm.exists_mem_methods hs.wellFormed (Option.isSome_iff_exists.mpr ⟨info, hmethod⟩) hconstructor
  exact ⟨c, hc, hmethods⟩

theorem Built.overridden_eq_nil (hs : s.Built) (hm : s.Declares m)
    (h : m.isConstructor = true ∨ Surface.isOverridable m = false) : m.overridden = [] := by
  refine List.eq_nil_iff_forall_not_mem.mpr fun e he => ?_
  obtain ⟨c, hc, hmem⟩ := hs.exists_mem_methods_of_overridden hm he
  obtain ⟨hoverridable, _⟩ := hs.exists_linkedIn hc hmem he
  rw [(hs.mem_methods hc hmem).2, hoverridable] at h
  rcases h with h | h <;> cases h

theorem Built.nodup_overridden (hs : s.Built) (hacyclic : s.Acyclic) (hm : s.Declares m) :
    (m.overridden.map Decl.id).Nodup := by
  cases hlinks : m.overridden with
  | nil => exact .nil
  | cons e rest =>
    have he : e ∈ m.overridden := hlinks ▸ List.mem_cons_self
    obtain ⟨c, hc, hmem⟩ := hs.exists_mem_methods_of_overridden hm he
    rw [← hlinks, hs.map_id_overridden hacyclic hc hmem]
    split
    · exact nodup_eraseDups _
    · exact .nil

/-- What is noted are the ids of what the links lead to. -/
theorem Built.noted_eq_map_id (hs : s.Built) (hacyclic : s.Acyclic) (hm : s.Declares m) {info : MethodInfo}
    (hinfo : m.asMethod? = some info) : info.overridden = m.overridden.map Decl.id := by
  have hmethod : m.asMethod?.isSome := Option.isSome_iff_exists.mpr ⟨info, hinfo⟩
  cases hconstructor : m.isConstructor with
  | true =>
    rw [hs.overridden_eq_nil hm (.inl hconstructor)]
    unfold Decl.isConstructor at hconstructor
    unfold Decl.asMethod? at hinfo
    cases hp : m.item.payload with
    | constructor info' =>
      rw [hp] at hinfo
      cases hinfo
      exact hs.constructor_unmarked hm hp
    | _ => rw [hp] at hconstructor; cases hconstructor
  | false =>
    obtain ⟨c, hc, _, hmem⟩ := hm.exists_mem_methods hs.wellFormed hmethod hconstructor
    obtain ⟨info', hp, hnoted⟩ := hs.noted_eq hacyclic hc hmem
    rw [Decl.asMethod?, hp] at hinfo
    cases hinfo
    rw [hnoted, hs.map_id_overridden hacyclic hc hmem]

/-! ## The law of links -/

def Overrides (s : Surface) (m e : Decl) : Prop := s.Declares m ∧ e ∈ m.overridden

/-- What links to overridden methods are to be. -/
structure OverrideLaw (s : Surface) : Prop where
  /-- Each of them leads to a method that matches, can be overridden and belongs to a class above. -/
  entry : ∀ c m e, s.Declares c → m ∈ c.methods → e ∈ m.overridden →
    e.modifiers.visibility ≠ .privateAccess ∧ e.modifiers.isStatic = false ∧ e.signatureMatches m = true ∧
      ∃ above, s.IsBelow c above ∧ above ≠ c ∧ e ∈ above.methods
  distinct : ∀ m, s.Declares m → (m.overridden.map Decl.id).Nodup
  /-- The superclass comes first and then the interfaces in turn, and each of them contributes what is found
  through it, if anything. -/
  inTurn : ∀ c m, s.Declares c → m ∈ c.methods → isOverridable m = true →
    m.overridden.map Decl.id = (s.contributions m (s.supertypes c)).eraseDups
  canonical : ∀ c, s.Declares c → c.interfaces.Pairwise fun a b => (TypeRef.canonicalOrder a b).isLE
  aside : ∀ m, s.Declares m → m.isConstructor = true ∨ m.modifiers.isStatic = true ∨
    m.modifiers.visibility = .privateAccess → m.overridden = []
  /-- No link is broken. -/
  linked : ∀ m info, s.Declares m → m.asMethod? = some info → info.overridden = m.overridden.map Decl.id
  wellFounded : WellFounded fun e m => s.Overrides m e
  acyclic : ∀ m, ¬TransGen s.Overrides m m

theorem Overrides.isBelow (hs : s.Built) (h : s.Overrides m e) :
    ∃ c above, m.parent? = some c ∧ e.parent? = some above ∧ s.IsBelow c above ∧ s.Declares above ∧
      s.Declares c := by
  obtain ⟨hdm, he⟩ := h
  obtain ⟨c, hc, hm⟩ := hs.exists_mem_methods_of_overridden hdm he
  obtain ⟨_, above, hlink⟩ := hs.exists_linkedIn hc hm he
  obtain ⟨habove, _⟩ := hlink.isBelow.declares hs.wellFormed
  have hmem := hlink.isMember
  rw [Decl.methods_eq] at hm hmem
  exact ⟨c, above, parent?_of_member hs.wellFormed hc hm Slot.noConfusion Slot.noConfusion,
    parent?_of_member hs.wellFormed habove hmem Slot.noConfusion Slot.noConfusion, hlink.isBelow, habove, hc⟩

/-- Links go up the hierarchy, so they end where it does. -/
theorem Acyclic.wellFounded_overrides (hacyclic : s.Acyclic) (hs : s.Built) :
    WellFounded fun e m => s.Overrides m e := by
  refine Subrelation.wf (fun {e m} h => ?_)
    (InvImage.wf (fun m : Decl => m.parent?.getD m) hacyclic.wellFounded)
  obtain ⟨c, above, hc, habove, hup⟩ := h.isBelow hs
  change s.IsBelow (m.parent?.getD m) (e.parent?.getD e) ∧ s.Declares (e.parent?.getD e) ∧
    s.Declares (m.parent?.getD m)
  rwa [hc, habove]

/-- In a built surface without cyclic references the links to overridden methods are as they should be. -/
theorem Built.overrideLaw (hs : s.Built) (hacyclic : s.Acyclic) : s.OverrideLaw where
  entry c m e hc hm he := by
    obtain ⟨_, above, hlink⟩ := hs.exists_linkedIn hc hm he
    obtain ⟨hstatic, hprivate⟩ := Bool.and_eq_true_iff.mp hlink.isOverridable
    rw [Bool.not_eq_true'] at hstatic
    refine ⟨bne_iff_ne.mp hprivate, hstatic, hlink.isMatch, above, hlink.isBelow, ?_, hlink.isMember⟩
    rintro rfl
    exact hacyclic _ hlink.isBelow
  distinct m hm := hs.nodup_overridden hacyclic hm
  inTurn c m hc hm hoverridable := by rw [hs.map_id_overridden hacyclic hc hm, if_pos hoverridable]
  canonical c hc := hs.interfaces_pairwise hc
  aside m hm h := by
    refine hs.overridden_eq_nil hm (h.imp_right fun h => ?_)
    unfold Surface.isOverridable
    rcases h with h | h
    · rw [h]; rfl
    · rw [h]; exact Bool.and_false _
  linked m info hm hinfo := hs.noted_eq_map_id hacyclic hm hinfo
  wellFounded := hacyclic.wellFounded_overrides hs
  acyclic m h := by
    have hcycle : TransGen (fun e m => s.Overrides m e) m m := transGen_swap.mpr h
    exact (hacyclic.wellFounded_overrides hs).transGen.asymmetric m m hcycle hcycle

/-- A hierarchy has no cycle if every class is declared behind its supertypes. -/
theorem acyclic_of_id_lt (hs : s.WellFormed)
    (h : ∀ c ∈ s.classDecls, ∀ above ∈ s.supertypes c, above.id.index < c.id.index) : s.Acyclic := by
  intro c hcycle
  have hlt : ∀ x, s.IsBelow c x → x.id.index < c.id.index := by
    intro x hx
    induction hx with
    | single hstep => exact h c ((mem_classDecls hs).mpr (IsBelow.declares hs hcycle)) _ hstep
    | tail hbelow hstep ih =>
      exact Nat.lt_trans (h _ ((mem_classDecls hs).mpr (IsBelow.declares hs hbelow)) _ hstep) ih
  exact Nat.lt_irrefl _ (hlt c hcycle)

end Surface

/-- A class whose method overrides one of an interface and the copy that its superclass has of a hidden one. Its
private method is not linked to the copy that it matches. -/
def Recipe.relinking : Recipe := Recipe.ofClasses [
  { name := "p.H", flags := { hidden := true }, methods := [.published "m", .published "n"] },
  { name := "p.I", kind := .interfaceType, methods := [.published "m"] },
  { name := "p.B", modifiers := .ofVisibility .publicAccess, superclass := some ⟨"p.H"⟩ },
  { name := "p.C"
    superclass := some ⟨"p.B"⟩
    interfaces := [⟨"p.I"⟩]
    constructors := [.published "C"]
    methods := [.published "m", { name := "n", modifiers := .ofVisibility .privateAccess }] }]

theorem Surface.Built.overrideLaw_relinking :
    let s := Recipe.relinking.build 1 "s"
    s.Acyclic ∧ s.OverrideLaw ∧ ∃ b c, s.findClass? "p.B" = some b ∧ s.findClass? "p.C" = some c ∧
      (b.methods.map fun m => m.overridden.map (·.ownerName)) = [["p.H"], ["p.H"]] ∧
      (c.methods.map fun m => m.overridden.map (·.ownerName)) = [["p.B", "p.I"], []] := by
  intro s
  have hs : s.Built := ⟨_, _, _, rfl⟩
  have hacyclic : s.Acyclic := acyclic_of_id_lt hs.wellFormed (by decide +kernel)
  have hfound : (s.findClass? "p.B").any fun b => (s.findClass? "p.C").any fun c =>
      (b.methods.map fun m => m.overridden.map (·.ownerName)) = [["p.H"], ["p.H"]] ∧
      (c.methods.map fun m => m.overridden.map (·.ownerName)) = [["p.B", "p.I"], []] := by decide +kernel
  obtain ⟨b, hb, hfound⟩ := (Option.any_eq_true ..).mp hfound
  obtain ⟨c, hc, hfound⟩ := (Option.any_eq_true ..).mp hfound
  exact ⟨hacyclic, hs.overrideLaw hacyclic, b, c, hb, hc, of_decide_eq_true hfound⟩

end ApiSurface
