import ApiSurface.Proofs.CounterpartWalks
import ApiSurface.Proofs.InheritedPaths

/-! # Reordered surfaces inherit alike

Which members a class takes from hidden superclasses depends on what it exposes already, and a member
that it takes counts from then on. Members of one class never match each other, so they do not get in
each other's way, and the order in which they come does not matter: surfaces that mirror each other still
do so with the copies. -/
namespace ApiSurface

open Arena Surface

namespace Surface

/-! ## One superclass -/

/-- Methods that do not match each other are taken one by one. -/
theorem newMethods_eq_filter (exposed : List Decl) {methods : List Decl}
    (h : methods.Pairwise fun a b => a.signatureMatches b = false) :
    newMethods exposed methods =
      methods.filter fun m => isInheritable m && !isExposed exposed m := by
  induction methods generalizing exposed with
  | nil => rfl
  | cons method rest ih =>
    obtain ⟨hhead, htail⟩ := List.pairwise_cons.mp h
    have hexposed : ∀ m ∈ rest, isExposed (exposed ++ [method]) m = isExposed exposed m := by
      intro m hm
      unfold isExposed
      rw [List.find?_append, List.find?_cons_of_neg (by rw [hhead m hm]; exact Bool.false_ne_true),
        List.find?_nil, Option.or_none]
    rw [newMethods, List.filter_cons, ih _ htail, ih _ htail]
    split
    · refine congrArg (method :: ·) (List.filter_congr fun m hm => ?_)
      rw [hexposed m hm]
    · rfl

/-- Fields of different names are taken one by one. -/
theorem newFields_eq_filter (names : List String) {fields : List Decl}
    (h : (fields.map Decl.name).Nodup) :
    newFields names fields = fields.filter fun f => isInheritable f && !names.contains f.name := by
  induction fields generalizing names with
  | nil => rfl
  | cons field rest ih =>
    obtain ⟨hhead, htail⟩ := List.nodup_cons.mp h
    have hnames : ∀ f ∈ rest, (names ++ [field.name]).contains f.name = names.contains f.name := by
      intro f hf
      have hne : f.name ≠ field.name := fun he => hhead (List.mem_map.mpr ⟨f, hf, he⟩)
      simp [hne]
    rw [newFields, List.filter_cons, ih _ htail, ih _ htail]
    split
    · refine congrArg (field :: ·) (List.filter_congr fun f hf => ?_)
      rw [hnames f hf]
    · rfl

variable {s s' : Surface} {c c' m m' o o' above above' : Decl}

theorem nodup_fieldNames (hs : s.WellFormed) (hf : s.FieldsApart) (hc : s.Declares c) :
    (c.fields.map Decl.name).Nodup := by
  rw [Decl.fields_eq]
  refine List.pairwise_map.mpr ((pairwise_members hs hc .fields).imp_of_mem ?_)
  intro a b ha hb hne hname
  exact hne (congrArg Decl.id (hf.eq_of_name hs hc ha hb hname))

/-- In both lists a method finds twins, if anything. -/
def Exposes (s s' : Surface) (exposed exposed' : List Decl) : Prop :=
  ∀ m m', s.Twins s' m m' → m.isConstructor = false →
    ∀ f g : Decl → Bool,
      (∀ d d', s.Twins s' d d' → d.isConstructor = false → g d' = f d) →
      (∀ d, g d = true → d.signatureMatches m' = true) →
      Option.Rel (s.Twins s') (exposed.find? f) (exposed'.find? g)

variable {exposed exposed' : List Decl} {names names' : List String}

theorem exposes_methods (hl : (Links.single s s').Sound) (hc : s.Twins s' c c') :
    s.Exposes s' c.methods c'.methods := by
  intro m m' ht hconstructor f g hfg hg
  have hn := hl.of_single.1.namesake ht
  have hfind := Links.Counterpart.find?_overloads (Links.counterpart_single.mpr hc) hl
    Links.mem_single ht
    (fun d d' hd => hfg d d' (Links.counterpart_single.mp hd.2) (hd.1.trans hconstructor)) hg
  rw [Decl.overloads, Decl.overloads, hn.isConstructor, hconstructor] at hfind
  exact rel_imp hfind fun _ _ hd => Links.counterpart_single.mp hd.2

theorem Exposes.filter (hx : s.Exposes s' exposed exposed') {p q : Decl → Bool}
    (hpq : ∀ d d', s.Twins s' d d' → d.isConstructor = false → q d' = p d) :
    s.Exposes s' (exposed.filter p) (exposed'.filter q) := by
  intro m m' ht hconstructor f g hfg hg
  rw [List.find?_filter, List.find?_filter]
  refine hx m m' ht hconstructor _ _ (fun d d' hd hdc => ?_) fun d hd => ?_
  · rw [hpq d d' hd hdc, hfg d d' hd hdc]
  · simp only [Bool.decide_and, Bool.decide_eq_true, Bool.and_eq_true] at hd
    exact hg d hd.2

theorem Exposes.append {more more' : List Decl} (hx : s.Exposes s' exposed exposed')
    (hmore : s.Exposes s' more more') : s.Exposes s' (exposed ++ more) (exposed' ++ more') := by
  intro m m' ht hconstructor f g hfg hg
  rw [List.find?_append, List.find?_append]
  exact rel_or (hx m m' ht hconstructor f g hfg hg) (hmore m m' ht hconstructor f g hfg hg)

theorem isInheritable_namesake (hn : m.Namesake m') : isInheritable m' = isInheritable m := by
  unfold isInheritable
  rw [hn.flags, hn.modifiers]

/-- The test that a method of a superclass must pass. -/
theorem newMethods_test (hm : s.Mirrors s') (hx : s.Exposes s' exposed exposed')
    (ht : s.Twins s' m m') (hconstructor : m.isConstructor = false) :
    (isInheritable m' && !isExposed exposed' m') = (isInheritable m && !isExposed exposed m) := by
  have hn := hm.namesake ht
  have hfound := hx m m' ht hconstructor (fun e => e.signatureMatches m)
    (fun e => e.signatureMatches m') (fun d d' hd _ => (hm.namesake hd).signatureMatches hn)
    fun d hd => hd
  have hexposed : isExposed exposed' m' = isExposed exposed m :=
    any_of_rel hfound fun d d' hd => (hm.namesake hd).sameSignature hn true
  rw [isInheritable_namesake hn, hexposed]

theorem newMethods_counterpart (hl : (Links.single s s').Sound) (hx : s.Exposes s' exposed exposed')
    (ha : s.Twins s' above above') :
    Shuffled (s.Twins s') (newMethods exposed above.methods) (newMethods exposed' above'.methods) ∧
      s.Exposes s' (newMethods exposed above.methods) (newMethods exposed' above'.methods) := by
  obtain ⟨hm, ho, ho'⟩ := hl.of_single
  have hpair := ho.pairwise_members hm.left ha.left .method (by decide)
  have hpair' := ho'.pairwise_members hm.right ha.right .method (by decide)
  rw [← Decl.methods_eq] at hpair hpair'
  rw [newMethods_eq_filter exposed hpair, newMethods_eq_filter exposed' hpair']
  refine ⟨?_, (exposes_methods hl ha).filter fun d d' hd hc => newMethods_test hm hx hd hc⟩
  have hmethods : ∀ m ∈ above.methods, m.isConstructor = false := by
    intro m hmem
    rw [Decl.methods_eq] at hmem
    exact isConstructor_of_role_method (role_of_member hm.left ha.left .method hmem)
  have hshuffled := (hm.members ha .methods).and_left (by rwa [← Decl.methods_eq])
  rw [← Decl.methods_eq, ← Decl.methods_eq] at hshuffled
  obtain ⟨ms, hms, hperm⟩ := hshuffled.filter fun d d' hd => newMethods_test hm hx hd.2 hd.1
  exact ⟨ms, hms.imp fun _ _ hd => hd.2, hperm⟩

theorem newFields_counterpart (hm : s.Mirrors s') (hnames : ∀ name, name ∈ names' ↔ name ∈ names)
    (ha : s.Twins s' above above') :
    Shuffled (s.Twins s') (newFields names above.fields) (newFields names' above'.fields) := by
  rw [newFields_eq_filter names (nodup_fieldNames hm.left hm.fieldsApart ha.left),
    newFields_eq_filter names' (nodup_fieldNames hm.right hm.fieldsApart' ha.right)]
  have hshuffled := hm.members ha .fields
  rw [← Decl.fields_eq, ← Decl.fields_eq] at hshuffled
  refine hshuffled.filter fun d d' hd => ?_
  have hn := hm.namesake hd
  have hcontains : names'.contains d.name = names.contains d.name := by
    rw [Bool.eq_iff_iff, List.contains_iff_mem, List.contains_iff_mem]
    exact hnames d.name
  rw [isInheritable_namesake hn, hn.name, hcontains]

/-! ## All superclasses -/

structure CopyTwins (s s' : Surface) (copy copy' : InheritedCopy) : Prop where
  owner : ∃ o o', s.Twins s' o o' ∧ copy.owner = o.id ∧ copy'.owner = o'.id
  source : ∃ m m', s.Twins s' m m' ∧ copy.source = m.id ∧ copy'.source = m'.id

/-- What a class takes from its superclasses has a twin in what the other one takes. -/
theorem copiesFrom_counterpart (hl : (Links.single s s').Sound) (howner : s.Twins s' o o')
    (hx : s.Exposes s' exposed exposed') (hnames : ∀ name, name ∈ names' ↔ name ∈ names)
    {chain chain' : List Decl} (hchain : List.Forall₂ (s.Twins s') chain chain') :
    ∀ copy ∈ copiesFrom o exposed names chain, ∃ copy' ∈ copiesFrom o' exposed' names' chain',
      s.CopyTwins s' copy copy' := by
  have hm := hl.of_single.1
  induction hchain generalizing exposed exposed' names names' with
  | nil => exact fun _ h => by cases h
  | @cons above above' _ _ ha _ ih =>
    obtain ⟨hmethods, hexposes⟩ := newMethods_counterpart hl hx ha
    have hfields := newFields_counterpart hm hnames ha
    have hnames' : ∀ name, name ∈ names' ++ (newFields names' above'.fields).map Decl.name ↔
        name ∈ names ++ (newFields names above.fields).map Decl.name := by
      intro name
      have hperm := hfields.map_perm (f := Decl.name) (g := Decl.name)
        fun d d' hd => (hm.namesake hd).name
      rw [List.mem_append, List.mem_append, hnames, hperm.mem_iff]
    intro copy hcopy
    rw [copiesFrom] at hcopy ⊢
    rcases List.mem_append.mp hcopy with hcopy | hcopy
    · obtain ⟨m, hmem, rfl⟩ := List.mem_map.mp hcopy
      have htwin : ∃ m' ∈ newMethods exposed' above'.methods ++ newFields names' above'.fields,
          s.Twins s' m m' := by
        rcases List.mem_append.mp hmem with hmem | hmem
        · obtain ⟨m', hm', ht⟩ := hmethods.exists_right hmem
          exact ⟨m', List.mem_append_left _ hm', ht⟩
        · obtain ⟨m', hm', ht⟩ := hfields.exists_right hmem
          exact ⟨m', List.mem_append_right _ hm', ht⟩
      obtain ⟨m', hm', ht⟩ := htwin
      exact ⟨_, List.mem_append_left _ (List.mem_map.mpr ⟨m', hm', rfl⟩),
        ⟨o, o', howner, rfl, rfl⟩, m, m', ht, rfl, rfl⟩
    · obtain ⟨copy', hcopy', ht⟩ := ih (hx.append hexposes) hnames' copy hcopy
      exact ⟨copy', List.mem_append_right _ hcopy', ht⟩

theorem hiddenSuperclasses_counterpart (hl : (Links.single s s').Sound) (hc : s.Twins s' c c') :
    List.Forall₂ (s.Twins s') (s.hiddenSuperclasses c) (s'.hiddenSuperclasses c') := by
  have hm := hl.of_single.1
  have hchain := (((View.alone_single s s').alike hl).superclassChain
    (Links.counterpart_single.mpr hc)).1
  refine forall₂_takeWhile (hchain.imp fun _ _ hd => Links.counterpart_single.mp hd) fun d d' hd => ?_
  exact (hm.namesake hd).isEffectively .hidden

theorem inheritedCopies_counterpart (hl : (Links.single s s').Sound) :
    ∀ copy ∈ s.inheritedCopies, ∃ copy' ∈ s'.inheritedCopies, s.CopyTwins s' copy copy' := by
  have hm := hl.of_single.1
  intro copy hcopy
  obtain ⟨c, hc, hcopy⟩ := List.mem_flatMap.mp hcopy
  obtain ⟨hdc, hclass⟩ := (mem_classDecls hm.left).mp hc
  obtain ⟨c', ht⟩ := hm.exists_right hdc
  have hn := hm.namesake ht
  have hc' : c' ∈ s'.classDecls :=
    (mem_classDecls hm.right).mpr ⟨ht.right, hn.isSome_asClass?.trans hclass⟩
  have hnames : ∀ name, name ∈ c'.fields.map Decl.name ↔ name ∈ c.fields.map Decl.name := by
    intro name
    have hshuffled := hm.members ht .fields
    rw [← Decl.fields_eq, ← Decl.fields_eq] at hshuffled
    exact (hshuffled.map_perm fun d d' hd => (hm.namesake hd).name).mem_iff.symm
  split at hcopy
  · cases hcopy
  · next hvisible =>
    obtain ⟨copy', hcopy', htwins⟩ := copiesFrom_counterpart hl ht (exposes_methods hl ht) hnames
      (hiddenSuperclasses_counterpart hl ht) copy hcopy
    refine ⟨copy', List.mem_flatMap.mpr ⟨c', hc', ?_⟩, htwins⟩
    rw [hn.isEffectively, if_neg hvisible]
    exact hcopy'

/-! ## The surfaces with the copies -/

theorem CopyTwins.hasPath (h : s.Mirrors s') {copy copy' : InheritedCopy}
    (ht : s.CopyTwins s' copy copy') (hplan : s.Plans copy o m) (hplan' : s'.Plans copy' o' m')
    {path : List Trait} (hpath : m.CopyPaths o path) : m'.CopyPaths o' path := by
  obtain ⟨o₁, o₁', hoo, ho₁, ho₁'⟩ := ht.owner
  obtain ⟨m₁, m₁', hmm, hm₁, hm₁'⟩ := ht.source
  obtain rfl := hplan.owner.eq_of_id hoo.left (hplan.ownerId.symm.trans ho₁)
  obtain rfl := hplan.source.eq_of_id hmm.left (hplan.sourceId.symm.trans hm₁)
  obtain rfl := hplan'.owner.eq_of_id hoo.right (hplan'.ownerId.symm.trans ho₁')
  obtain rfl := hplan'.source.eq_of_id hmm.right (hplan'.sourceId.symm.trans hm₁')
  have htraits := map_of_forall₂ (h.parameters hmm) fun _ _ hp => (h.namesake hp).trait
  unfold Decl.CopyPaths
  rw [(h.namesake hmm).trait, hoo.path, htraits]
  exact hpath

theorem withInheritedCopies_keeps (hs : s.WellFormed) : s.Keeps s.withInheritedCopies :=
  (keeps_foldl_addCopy hs fun _ hc => plans_of_mem_inheritedCopies hs hc).1

theorem hasPath_withInheritedCopies (hs : s.WellFormed) {path : List Trait} :
    s.withInheritedCopies.HasPath path ↔ s.HasPath path ∨
      ∃ copy ∈ s.inheritedCopies, ∃ o m, s.Plans copy o m ∧ m.CopyPaths o path :=
  (keeps_foldl_addCopy hs fun _ hc => plans_of_mem_inheritedCopies hs hc).2 path

theorem hasPath_withInheritedCopies_counterpart (hl : (Links.single s s').Sound) {path : List Trait}
    (hpath : s.withInheritedCopies.HasPath path) : s'.withInheritedCopies.HasPath path := by
  have hm := hl.of_single.1
  rw [hasPath_withInheritedCopies hm.left] at hpath
  rw [hasPath_withInheritedCopies hm.right]
  rcases hpath with hpath | ⟨copy, hcopy, o, m, hplan, hpath⟩
  · exact .inl ((hm.hasPath path).mpr hpath)
  · obtain ⟨copy', hcopy', ht⟩ := inheritedCopies_counterpart hl copy hcopy
    obtain ⟨o', m', hplan'⟩ := plans_of_mem_inheritedCopies hm.right hcopy'
    exact .inr ⟨copy', hcopy', o', m', hplan', ht.hasPath hm hplan hplan' hpath⟩

/-- Surfaces that mirror each other still do so with the members that their classes inherit. -/
theorem mirrors_withInheritedCopies (hl : (Links.single s s').Sound)
    (hp : s.withInheritedCopies.PathsApart) (hp' : s'.withInheritedCopies.PathsApart) :
    s.withInheritedCopies.Mirrors s'.withInheritedCopies where
  left := (withInheritedCopies_keeps hl.of_single.1.left).right
  right := (withInheritedCopies_keeps hl.of_single.1.right).right
  isPartial := hl.of_single.1.isPartial
  hasPath _ :=
    ⟨hasPath_withInheritedCopies_counterpart hl.flip, hasPath_withInheritedCopies_counterpart hl⟩
  pathsApart := hp
  pathsApart' := hp'
  fieldsApart := hl.of_single.1.fieldsApart.withInheritedCopies hl.of_single.1.left
  fieldsApart' := hl.of_single.1.fieldsApart'.withInheritedCopies hl.of_single.1.right

end Surface

end ApiSurface
