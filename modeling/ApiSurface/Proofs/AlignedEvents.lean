import ApiSurface.Proofs.Alignment
import ApiSurface.Proofs.Ancestry
import ApiSurface.Proofs.Walk

/-! # Comparisons of aligned surfaces

If aligned surfaces pair their methods alike, then a comparison matches every declaration with its peer, and
finds nothing removed or added. The two lists of methods of a class are sorted alike, so the methods that
come first match, and so do the ones after them. -/
namespace ApiSurface

open Arena Surface Comparison

/-- Methods of one class that are one after erasure, which no compiler accepts, have the order of their texts
in either surface. -/
def Surface.KeepsOrder (s t : Surface) : Prop :=
  ∀ d d' e e', s.Peers t d d' → s.Peers t e e' → d.item.parent = e.item.parent →
    d.asMethod?.isSome → e.asMethod?.isSome → d.name = e.name →
      (MethodKey.ofDecl d).erased = (MethodKey.ofDecl e).erased →
        Ord.compare (MethodKey.ofDecl d').literal (MethodKey.ofDecl e').literal =
          Ord.compare (MethodKey.ofDecl d).literal (MethodKey.ofDecl e).literal

/-- Peers do not differ in what methods are paired by: the erasures of the types of their parameters, and the
order of their texts where all else is the same. -/
structure Surface.PairsAlike (s t : Surface) : Prop where
  erased : ∀ d d', s.Peers t d d' → d.asParameter?.isSome → ∀ a ∈ d.mainType?, ∀ b ∈ d'.mainType?,
    b.erasureIn d'.typeScope = a.erasureIn d.typeScope
  order : s.KeepsOrder t

def Event.OfPeers (s t : Surface) : Event → Prop
  | .matched d d' => s.Peers t d d'
  | .removed .. => False
  | .added _ => False

/-- The same type parameters are visible at a parameter and at its method. -/
theorem typeScope_of_parameter {s : Surface} (hs : s.WellFormed) {m p : Decl} (hm : s.Declares m)
    (hmethod : m.asMethod?.isSome) (hp : p ∈ m.members .parameters) : p.typeScope = m.typeScope := by
  have hdp := ((mem_members hs hm).mp hp).1
  have hof := containingMethod?_of_parameter hs hm hp
  have hparent := parent?_of_member hs hm hp Slot.noConfusion Slot.noConfusion
  obtain ⟨info, hpay⟩ := payload_of_parameter hs hm hp
  have hown : p.ownTypeParameters = [] := by rw [Decl.ownTypeParameters, hpay]
  have hclass : p.containingClass? = m.parent? := by
    rw [Decl.containingClass?, hpay]
    dsimp only
    rw [hparent, Option.bind_some]
  have houter : m.containingClass? = m.parent? ∧ m.containingMethod? = none := by
    unfold Decl.asMethod? at hmethod
    unfold Decl.containingClass? Decl.containingMethod?
    cases hpm : m.item.payload <;> rw [hpm] at hmethod <;> first | exact ⟨rfl, rfl⟩ | cases hmethod
  have hclasses : p.enclosingClasses = m.enclosingClasses := by
    rw [Decl.enclosingClasses, Decl.enclosingClasses, hdp.selfAndClasses_eq hs, hm.selfAndClasses_eq hs,
      hclass, houter.1, List.tail_cons, List.tail_cons]
  unfold Decl.typeScope
  rw [hown, hof, houter.2, hclasses]
  simp

namespace Surface.Aligned

variable {s t : Surface} {c c' d d' m m' : Decl} (h : s.Aligned t) (hp : s.PairsAlike t)

include h hp

/-! ## Fields -/

omit hp in
theorem find?_name {ds ds' : List Decl} (hds : List.Forall₂ (s.Peers t) ds ds') (name : String) :
    Option.Rel (s.Peers t) (ds.find? fun d => d.name == name) (ds'.find? fun d => d.name == name) :=
  find?_rel hds fun d d' hd => by rw [hd.name h]

omit hp in
theorem fieldEvents (hc : s.Peers t c c') {e : Event}
    (he : e ∈ Comparison.fieldEvents c' (c.members .fields) (c'.members .fields)) : e.OfPeers s t := by
  obtain ⟨name, he⟩ := mem_fieldEvents.mp he
  have hfound := find?_name h (hc.members h .fields) name
  rw [← getElem?_firstByName, ← getElem?_firstByName] at hfound
  rcases mem_fieldBlock.mp he with ⟨o, n, ho, hn, rfl⟩ | ⟨o, ho, hn, rfl⟩ | ⟨n, ho, hn, rfl⟩ <;>
    rw [ho, hn] at hfound
  · cases hfound with | some hpeers => exact hpeers
  · cases hfound
  · cases hfound

/-! ## Methods -/

variable (hs : s.WellFormed) (ht : t.WellFormed)

include hs ht

/-- The types of the parameters of peers have the same erasures. -/
theorem erasures (hm : s.Peers t m m') (hmethod : m.asMethod?.isSome) :
    List.Forall₂ (fun a b : TypeRef => b.erasureIn m'.typeScope = a.erasureIn m.typeScope)
      m.parameterTypes m'.parameterTypes := by
  have hmethod' : m'.asMethod?.isSome := by
    have hsome := congrArg Option.isSome (hm.asMethod? h)
    rw [Option.isSome_map, Option.isSome_map] at hsome
    rwa [hsome]
  unfold Decl.parameterTypes
  rw [Decl.parameters_eq, Decl.parameters_eq]
  refine List.rel_filterMap ?_ (forall₂_mem (hm.members h .parameters))
  rintro p p' ⟨hmem, hmem', hpeers⟩
  obtain ⟨info, hpay⟩ := payload_of_parameter hs hm.left hmem
  obtain ⟨info', hpay'⟩ := payload_of_parameter ht hm.right hmem'
  have hp? : p.asParameter? = some info := by rw [Decl.asParameter?, hpay]
  have hp?' : p'.asParameter? = some info' := by rw [Decl.asParameter?, hpay']
  have hmain : p.mainType? = some info.type := by rw [Decl.mainType?, hpay]
  have hmain' : p'.mainType? = some info'.type := by rw [Decl.mainType?, hpay']
  have herased := hp.erased p p' hpeers (by rw [hp?]; rfl) _ hmain _ hmain'
  rw [typeScope_of_parameter hs hm.left hmethod hmem,
    typeScope_of_parameter ht hm.right hmethod' hmem'] at herased
  simp only [hp?, hp?', Option.map_some]
  exact .some herased

/-- The keys of methods of one class are in the order of those of their peers. -/
theorem order_eq {e e' : Decl} (hd : s.Peers t d d') (he : s.Peers t e e')
    (hparent : d.item.parent = e.item.parent) (hmethod : d.asMethod?.isSome) (hmethod' : e.asMethod?.isSome) :
    (MethodKey.ofDecl d').order (.ofDecl e') = (MethodKey.ofDecl d).order (.ofDecl e) := by
  have hsame : ∀ {m m' : Decl}, s.Peers t m m' → m.asMethod?.isSome →
      (MethodKey.ofDecl m').arity = (MethodKey.ofDecl m).arity ∧
        (MethodKey.ofDecl m').erased = (MethodKey.ofDecl m).erased := by
    intro m m' hm hmethod
    have herased := erasures h hp hs ht hm hmethod
    exact ⟨herased.length_eq.symm, map_of_forall₂ herased fun _ _ hab => hab⟩
  have hname : ∀ {m m' : Decl}, s.Peers t m m' → (MethodKey.ofDecl m').name = (MethodKey.ofDecl m).name :=
    fun hm => hm.name h
  unfold MethodKey.order
  rw [hname hd, hname he, (hsame hd hmethod).1, (hsame hd hmethod).2, (hsame he hmethod').1,
    (hsame he hmethod').2]
  -- The texts count only where all else is the same.
  cases hn : Ord.compare (MethodKey.ofDecl d).name (MethodKey.ofDecl e).name with
  | lt | gt => rfl
  | eq =>
    cases ha : Ord.compare (MethodKey.ofDecl d).erased (MethodKey.ofDecl e).erased with
    | lt | gt => rfl
    | eq =>
      rw [hp.order d d' e e' hd he hparent hmethod hmethod' (Std.LawfulEqCmp.compare_eq_iff_eq.mp hn)
        (Std.LawfulEqCmp.compare_eq_iff_eq.mp ha)]

/-- A method matches its peer. -/
theorem signatureMatches (hm : s.Peers t m m') (hmethod : m.asMethod?.isSome) :
    m.signatureMatches m' = true := by
  obtain ⟨hlength, herased⟩ := List.forall₂_iff_zip.mp (erasures h hp hs ht hm hmethod)
  obtain ⟨info, hinfo⟩ := Option.isSome_iff_exists.mp hmethod
  have huntyped := hm.asMethod? h
  rw [hinfo, Option.map_some] at huntyped
  obtain ⟨info', hinfo', hsame⟩ := Option.map_eq_some_iff.mp huntyped
  have hname : info'.name = info.name := (congrArg MethodInfo.name hsame :)
  unfold Decl.signatureMatches
  rw [hinfo, hinfo']
  dsimp only
  rw [hname, hlength, beq_self_eq_true, beq_self_eq_true, Bool.true_and, Bool.true_and, List.all_eq_true]
  rintro ⟨a, b⟩ hmem
  simp only [Decl.parameterAgrees, herased hmem, beq_self_eq_true, Bool.or_true, Bool.true_or]

theorem exists_of_mem_pairUp {old new : List Keyed}
    (hkeyed : List.Forall₂ (fun k k' => s.Peers t k.decl k'.decl ∧ k.decl.asMethod?.isSome) old new)
    {key : MethodKey} {pairing : Pairing} (hmem : (key, pairing) ∈ pairUp old new) :
    ∃ m m', pairing = .both m m' ∧ s.Peers t m m' := by
  induction hkeyed with
  | nil => cases hmem
  | @cons k k' _ _ hk _ ih =>
    -- What stands first among those that are left matches, so nothing else is taken.
    have hfirst := signatureMatches h hp hs ht hk.1 hk.2
    rw [pairUp_cons_some (List.find?_cons_of_pos hfirst), List.eraseP_cons_of_pos (by exact hfirst)] at hmem
    rcases List.mem_cons.mp hmem with heq | hmem
    · cases heq
      exact ⟨_, _, rfl, hk.1⟩
    · exact ih hmem

/-- The sorted lists of methods hold peers at the same places. -/
theorem sortedByKey (hc : s.Peers t c c') {role : Role} {slot : Slot} (hslot : MemberRole role slot)
    (hrole : role ≠ .field) :
    List.Forall₂ (fun k k' : Keyed => s.Peers t k.decl k'.decl ∧ k.decl.asMethod?.isSome)
      (Comparison.sortedByKey (c.members slot)) (Comparison.sortedByKey (c'.members slot)) := by
  have hkeyed : List.Forall₂ (fun k k' : Keyed => s.Peers t k.decl k'.decl ∧ k.decl.asMethod?.isSome ∧
      k.decl.item.parent = some c.id ∧ k.key = .ofDecl k.decl ∧ k'.key = .ofDecl k'.decl)
      ((c.members slot).map keyed) ((c'.members slot).map keyed) := by
    refine List.rel_map (R := fun m m' => m ∈ c.members slot ∧ m' ∈ c'.members slot ∧ s.Peers t m m') ?_
      (forall₂_mem (hc.members h slot))
    rintro m m' ⟨hm, _, hpeers⟩
    have hparent : m.item.parent = some c.id := by
      cases hslot <;> exact parent_of_member hs hc.left hm Slot.noConfusion Slot.noConfusion
    exact ⟨hpeers, isSome_asMethod?_of_member hs hc.left hslot hrole hm, hparent, rfl, rfl⟩
  rw [sortedByKey_eq, sortedByKey_eq]
  refine (forall₂_mergeSort hkeyed ?_).imp fun k k' hk => ⟨hk.1, hk.2.1⟩
  rintro a b ⟨hab, hma, hpa, ha, hb⟩ e f ⟨hef, hme, hpe, he, hf⟩
  have horder := order_eq h hp hs ht hab hef (hpa.trans hpe.symm) hma hme
  unfold walkOrder
  rw [ha, hb, he, hf, horder, hab.rank h, hef.rank h]

theorem methodEvents (hc : s.Peers t c c') {role : Role} {slot : Slot} (hslot : MemberRole role slot)
    (hrole : role ≠ .field) {e : Event}
    (he : e ∈ Comparison.methodEvents c' (c.members slot) (c'.members slot)) : e.OfPeers s t := by
  obtain ⟨⟨key, pairing⟩, hmem, he⟩ := mem_methodEvents.mp he
  obtain ⟨m, m', rfl, hpeers⟩ :=
    exists_of_mem_pairUp h hp hs ht (sortedByKey h hp hs ht hc hslot hrole) hmem
  rcases mem_events_both.mp he with rfl | ⟨x, y, hxy, rfl⟩
  · exact hpeers
  · rw [Decl.parameters_eq, Decl.parameters_eq] at hxy
    exact (List.forall₂_iff_zip.mp (hpeers.members h .parameters)).2 hxy

/-! ## Classes -/

theorem memberEvents (hc : s.Peers t c c') {e : Event} (he : e ∈ Comparison.memberEvents .all c c') :
    e.OfPeers s t := by
  rw [mem_memberEvents, filter_all, filter_all, filter_all] at he
  rcases he with he | he | he
  · exact methodEvents h hp hs ht hc .constructor (by decide) he
  · exact methodEvents h hp hs ht hc .method (by decide) he
  · exact fieldEvents h hc he

theorem classEvents {p p' : Decl} (hpeers : s.Peers t p p') {e : Event}
    (he : e ∈ Comparison.classEvents .all p p') : e.OfPeers s t := by
  have hclasses : List.Forall₂ (s.Peers t) p.classes.reverse p'.classes.reverse := by
    rw [Decl.classes_eq, Decl.classes_eq]
    exact List.rel_reverse (hpeers.members h .classes)
  have hfound : ∀ name : String, Option.Rel (s.Peers t) (lastByName p.classes)[name]?
      (lastByName (p'.classes.filter Filter.all))[name]? := by
    intro name
    rw [filter_all, getElem?_lastByName, getElem?_lastByName]
    exact find?_name h hclasses name
  rw [classEvents_eq] at he
  obtain ⟨name, _, he⟩ := List.mem_flatMap.mp he
  rcases classBlock_cases he with ⟨c, d, hpair, rfl, hevent⟩ | ⟨c, hc, hd, _⟩ | ⟨d, hc, hd, _⟩
  · have hcd := hfound c.name
    rw [hpair.old, hpair.new] at hcd
    cases hcd with | some hcd => ?_
    rcases hevent with rfl | hevent
    · exact hcd
    · exact memberEvents h hp hs ht hcd hevent
  all_goals
    have hcd := hfound name
    rw [hc, hd] at hcd
    cases hcd

/-! ## Packages -/

/-- A comparison of aligned surfaces matches peers, and nothing else. -/
theorem ofPeers {e : Event} (he : e ∈ s.compare t .all) : e.OfPeers s t := by
  rw [compare_eq] at he
  obtain ⟨name, _, he⟩ := List.mem_flatMap.mp he
  have hfound := h.findPackage? name
  have hall : (t.findPackage? name).filter Filter.all = t.findPackage? name := by
    cases t.findPackage? name <;> rfl
  rcases packageBlock_cases hs he with ⟨p, q, hpair, rfl, hevent⟩ | ⟨p, ho, hn, _⟩ | ⟨q, ho, hn, _⟩
  · rw [hpair.old, hpair.find_new.1] at hfound
    cases hfound with | some hpeers => ?_
    rcases hevent with rfl | hevent
    · exact hpeers
    · exact classEvents h hp hs ht hpeers hevent
  all_goals
    rw [hall] at hn
    rw [ho, hn] at hfound
    cases hfound

end Surface.Aligned

end ApiSurface
