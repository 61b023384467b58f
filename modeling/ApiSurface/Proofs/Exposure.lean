import ApiSurface.Proofs.InheritedPaths

/-! # What a class exposes

A class that is not hidden takes members from its hidden superclasses, the nearest first and each class in
the order of its lists. Which ones it takes depends on what it exposes by then. So the members are one
greedy choice from all the members of the hidden superclasses, and none is left without a reason. -/
namespace ApiSurface

open Arena Surface

def Decl.takes (c m : Decl) : InheritedCopy :=
  { owner := c.id, source := m.id, declaredIn := m.item.parent.getD default }

/-- The member is neither static nor hidden itself, and it is public or protected. -/
structure Decl.Inheritable (m : Decl) : Prop where
  isStatic : m.modifiers.isStatic = false
  hidden : m.flags.hidden = false
  visibility : m.modifiers.visibility = .publicAccess ∨ m.modifiers.visibility = .protectedAccess

namespace Surface

/-- The methods of the hidden superclasses of a class, the nearest first. -/
def hiddenMethods (s : Surface) (c : Decl) : List Decl := (s.hiddenSuperclasses c).flatMap Decl.methods

/-- The fields of the hidden superclasses of a class, the nearest first. -/
def hiddenFields (s : Surface) (c : Decl) : List Decl := (s.hiddenSuperclasses c).flatMap Decl.fields

/-- The members that a class takes from the classes above it, when it exposes some methods and field names
already. -/
def exposedFrom (methods : List Decl) (fieldNames : List String) : List Decl → List Decl
  | [] => []
  | above :: rest =>
    let newMethods := newMethods methods above.methods
    let newFields := newFields fieldNames above.fields
    newMethods ++ newFields ++
      exposedFrom (methods ++ newMethods) (fieldNames ++ newFields.map Decl.name) rest

/-- The members that a class takes from its hidden superclasses. -/
def exposedBy (s : Surface) (c : Decl) : List Decl :=
  if c.isEffectively .hidden then []
  else exposedFrom c.methods (c.fields.map Decl.name) (s.hiddenSuperclasses c)

/-- The classes of the surface with the members that they take, in the order in which they take them. -/
def exposures (s : Surface) : List (Decl × Decl) :=
  s.classDecls.flatMap fun c => (s.exposedBy c).map fun m => (c, m)

variable {s : Surface} {c f m : Decl} {exposed methods before after fields : List Decl}
  {names : List String} {chain : List Decl}

theorem isInheritable_iff : isInheritable m = true ↔ m.Inheritable := by
  have hvisible : m.modifiers.visibility.isAccessible = true ↔
      m.modifiers.visibility = .publicAccess ∨ m.modifiers.visibility = .protectedAccess := by
    cases m.modifiers.visibility <;> decide
  rw [isInheritable, Bool.and_eq_true, Bool.and_eq_true, Bool.not_eq_true', Bool.not_eq_true', hvisible]
  exact ⟨fun ⟨⟨hhidden, hstatic⟩, hseen⟩ => ⟨hstatic, hhidden, hseen⟩,
    fun ⟨hstatic, hhidden, hseen⟩ => ⟨⟨hhidden, hstatic⟩, hseen⟩⟩

/-- The hidden superclasses of a class come first in its chain, and the next one is not hidden. -/
theorem exists_hiddenSuperclasses_append (s : Surface) (c : Decl) : ∃ rest,
    (s.alone.superclassChain c).members = s.hiddenSuperclasses c ++ rest ∧
      (∀ above ∈ s.hiddenSuperclasses c, above.isEffectively .hidden = true) ∧
        ∀ above ∈ rest.head?, above.isEffectively .hidden = false := by
  refine ⟨_, List.takeWhile_append_dropWhile.symm, List.all_eq_true.mp List.all_takeWhile,
    fun above habove => ?_⟩
  have hnot := List.head?_dropWhile_not (fun above : Decl => above.isEffectively .hidden)
    (s.alone.superclassChain c).members
  rw [Option.mem_def.mp habove] at hnot
  exact hnot

/-! ## Methods -/

theorem newMethods_append (exposed methods more : List Decl) : newMethods exposed (methods ++ more) =
    newMethods exposed methods ++ newMethods (exposed ++ newMethods exposed methods) more := by
  induction methods generalizing exposed with
  | nil => rw [List.nil_append, newMethods, List.nil_append, List.append_nil]
  | cons method rest ih =>
    rw [List.cons_append, newMethods, newMethods]
    split
    · rw [ih, List.cons_append, List.append_assoc, List.singleton_append]
    · exact ih exposed

theorem isInheritable_of_mem_newMethods (h : m ∈ newMethods exposed methods) :
    isInheritable m = true := by
  induction methods generalizing exposed with
  | nil => cases h
  | cons method rest ih =>
    rw [newMethods] at h
    split at h
    · next htaken =>
      rcases List.mem_cons.mp h with rfl | h
      · exact (Bool.and_eq_true_iff.mp htaken).1
      · exact ih h
    · exact ih h

/-- A method that says the same as the first exposed one that it matches is not taken, and every other one
that can be inherited is. -/
theorem mem_newMethods_or_isExposed (hm : isInheritable m = true) :
    m ∈ newMethods exposed (before ++ m :: after) ∨
      isExposed (exposed ++ newMethods exposed before) m = true := by
  cases h : isExposed (exposed ++ newMethods exposed before) m with
  | true => exact .inr rfl
  | false =>
    refine .inl ?_
    rw [newMethods_append, newMethods, if_pos (by rw [hm, h]; rfl)]
    exact List.mem_append_right _ List.mem_cons_self

theorem exists_of_isExposed (h : isExposed exposed m = true) :
    ∃ e ∈ exposed, e.signatureMatches m = true ∧ e.sameSignature m true = true := by
  obtain ⟨e, hfind, hsame⟩ := (Option.any_eq_true ..).mp h
  have hmatch := List.find?_some hfind
  exact ⟨e, List.mem_of_find?_eq_some hfind, hmatch, hsame⟩

/-- Of the methods that can be inherited none is left out but for an exposed one that says the same. -/
theorem newMethods_complete (hsplit : methods = before ++ m :: after) (hm : isInheritable m = true) :
    m ∈ newMethods exposed methods ∨
      ∃ e, (e ∈ exposed ∨ e ∈ before ∧ e ∈ newMethods exposed methods) ∧
        e.signatureMatches m = true ∧ e.sameSignature m true = true := by
  subst hsplit
  rcases mem_newMethods_or_isExposed hm with hmem | hexposed
  · exact .inl hmem
  · obtain ⟨e, he, hsame⟩ := exists_of_isExposed hexposed
    refine .inr ⟨e, (List.mem_append.mp he).imp_right fun he => ?_, hsame⟩
    refine ⟨newMethods_subset _ _ he, ?_⟩
    rw [newMethods_append]
    exact List.mem_append_left _ he

/-! ## Fields -/

theorem newFields_append (names : List String) (fields more : List Decl) :
    newFields names (fields ++ more) = newFields names fields ++
      newFields (names ++ (newFields names fields).map Decl.name) more := by
  induction fields generalizing names with
  | nil => rw [List.nil_append, newFields, List.nil_append, List.map_nil, List.append_nil]
  | cons field rest ih =>
    rw [List.cons_append, newFields, newFields]
    split
    · rw [ih, List.cons_append, List.map_cons, List.append_assoc, List.singleton_append]
    · exact ih names

/-- A field is taken iff it is the first that can be inherited under its name, which is new. -/
theorem mem_newFields_iff : f ∈ newFields names fields ↔
    f.name ∉ names ∧ fields.find? (fun g => isInheritable g && g.name == f.name) = some f := by
  induction fields generalizing names with
  | nil => simp [newFields]
  | cons field rest ih =>
    rw [newFields, List.find?_cons]
    cases hin : isInheritable field with
    | false => simpa using ih
    | true =>
      by_cases hold : field.name ∈ names
      · rw [if_neg (by simp [hold]), ih]
        refine and_congr_right fun hnew => ?_
        have hne : field.name ≠ f.name := fun he => hnew (he ▸ hold)
        rw [Bool.true_and, beq_false_of_ne hne]
      · rw [if_pos (by simp [hold]), List.mem_cons, ih]
        by_cases hname : field.name = f.name
        · have hno : ¬f.name ∉ names ++ [field.name] := by simp [hname]
          rw [or_iff_left fun h => hno h.1, Bool.true_and, beq_iff_eq.mpr hname, Option.some.injEq]
          exact ⟨fun h => ⟨fun hmem => hold (hname ▸ hmem), h.symm⟩, fun h => h.2.symm⟩
        · have hne : f ≠ field := fun he => hname (he ▸ rfl)
          rw [or_iff_right hne, Bool.true_and, beq_false_of_ne hname, List.mem_append,
            List.mem_singleton, not_or, and_iff_left (Ne.symm hname)]

theorem isInheritable_of_mem_newFields (h : f ∈ newFields names fields) : isInheritable f = true := by
  have hfound := List.find?_some (mem_newFields_iff.mp h).2
  exact (Bool.and_eq_true_iff.mp hfound).1

/-- A field that is taken has a new name, which no earlier one has that can be inherited. -/
theorem exists_split_of_mem_newFields (h : f ∈ newFields names fields) : f.name ∉ names ∧
    ∃ before after, fields = before ++ f :: after ∧ ∀ g ∈ before, g.Inheritable → g.name ≠ f.name := by
  obtain ⟨hnew, hfound⟩ := mem_newFields_iff.mp h
  obtain ⟨_, before, after, hsplit, hbefore⟩ := List.find?_eq_some_iff_append.mp hfound
  refine ⟨hnew, before, after, hsplit, fun g hg hin hname => ?_⟩
  have hno := hbefore g hg
  rw [isInheritable_iff.mpr hin, beq_iff_eq.mpr hname] at hno
  cases hno

/-- Every name that can be inherited is exposed in the end. -/
theorem newFields_complete (hf : f ∈ fields) (hin : isInheritable f = true) :
    f.name ∈ names ∨ f.name ∈ (newFields names fields).map Decl.name := by
  by_cases hold : f.name ∈ names
  · exact .inl hold
  · obtain ⟨g, hg⟩ : ∃ g, fields.find? (fun g => isInheritable g && g.name == f.name) = some g :=
      Option.isSome_iff_exists.mp (List.find?_isSome.mpr ⟨f, hf, by simp [hin]⟩)
    have hfound := List.find?_some hg
    have hname : g.name = f.name := beq_iff_eq.mp (Bool.and_eq_true_iff.mp hfound).2
    refine .inr (List.mem_map.mpr ⟨g, mem_newFields_iff.mpr ⟨hname ▸ hold, ?_⟩, hname⟩)
    rw [hname]
    exact hg

/-! ## All members of a chain -/

theorem isSome_asMethod?_of_mem_methods (hs : s.WellFormed) (hc : s.Declares c) (hm : m ∈ c.methods) :
    m.asMethod?.isSome = true := by
  rw [Decl.methods_eq] at hm
  exact m.isSome_asMethod?.mpr (.inl (role_of_member hs hc .method hm))

theorem isSome_asField?_of_mem_fields (hs : s.WellFormed) (hc : s.Declares c) (hf : f ∈ c.fields) :
    f.asField?.isSome = true := by
  rw [Decl.fields_eq] at hf
  exact f.isSome_asField?.mpr (role_of_member hs hc .field hf)

/-- Nothing is a method and a field. -/
theorem asField?_of_asMethod? (h : m.asMethod?.isSome = true) : m.asField?.isSome = false := by
  unfold Decl.asMethod? at h
  unfold Decl.asField?
  cases hp : m.item.payload with
  | field info => rw [hp] at h; cases h
  | _ => rfl

theorem asMethod?_of_asField? (h : m.asField?.isSome = true) : m.asMethod?.isSome = false :=
  Bool.eq_false_iff.mpr fun hm => Bool.false_ne_true ((asField?_of_asMethod? hm).symm.trans h)

/-- What is taken from one class are methods and fields, the methods first. -/
theorem filter_taken (hs : s.WellFormed) (hc : s.Declares c) (methods : List Decl) (names : List String) :
    (newMethods methods c.methods ++ newFields names c.fields).filter (fun m => m.asMethod?.isSome) =
        newMethods methods c.methods ∧
      (newMethods methods c.methods ++ newFields names c.fields).filter (fun m => m.asField?.isSome) =
        newFields names c.fields := by
  have hmethods : ∀ m ∈ newMethods methods c.methods, m.asMethod?.isSome = true := fun m hm =>
    isSome_asMethod?_of_mem_methods hs hc (newMethods_subset _ _ hm)
  have hfields : ∀ f ∈ newFields names c.fields, f.asField?.isSome = true := fun f hf =>
    isSome_asField?_of_mem_fields hs hc (newFields_subset _ _ hf)
  rw [List.filter_append, List.filter_append]
  constructor
  · rw [List.filter_eq_self.mpr hmethods, List.filter_eq_nil_iff.mpr fun f hf =>
      Bool.eq_false_iff.mp (asMethod?_of_asField? (hfields f hf)), List.append_nil]
  · rw [List.filter_eq_self.mpr hfields, List.filter_eq_nil_iff.mpr fun m hm =>
      Bool.eq_false_iff.mp (asField?_of_asMethod? (hmethods m hm)), List.nil_append]

theorem exposedFrom_cons (methods : List Decl) (names : List String) (above : Decl) (chain : List Decl) :
    exposedFrom methods names (above :: chain) =
      newMethods methods above.methods ++ newFields names above.fields ++
        exposedFrom (methods ++ newMethods methods above.methods)
          (names ++ (newFields names above.fields).map Decl.name) chain := rfl

/-- The methods that are taken along the chain are a greedy choice from all its methods. -/
theorem filter_asMethod?_exposedFrom (hs : s.WellFormed) (hchain : ∀ above ∈ chain, s.Declares above) :
    (exposedFrom methods names chain).filter (fun m => m.asMethod?.isSome) =
      newMethods methods (chain.flatMap Decl.methods) := by
  induction chain generalizing methods names with
  | nil => rfl
  | cons above rest ih =>
    obtain ⟨habove, hrest⟩ := List.forall_mem_cons.mp hchain
    rw [exposedFrom_cons, List.filter_append, (filter_taken hs habove methods names).1, ih hrest,
      List.flatMap_cons, newMethods_append]

/-- The fields that are taken along the chain are a greedy choice from all its fields. -/
theorem filter_asField?_exposedFrom (hs : s.WellFormed) (hchain : ∀ above ∈ chain, s.Declares above) :
    (exposedFrom methods names chain).filter (fun m => m.asField?.isSome) =
      newFields names (chain.flatMap Decl.fields) := by
  induction chain generalizing methods names with
  | nil => rfl
  | cons above rest ih =>
    obtain ⟨habove, hrest⟩ := List.forall_mem_cons.mp hchain
    rw [exposedFrom_cons, List.filter_append, (filter_taken hs habove methods names).2, ih hrest,
      List.flatMap_cons, newFields_append]

/-- What is taken along the chain is a method or a field of one of its classes. -/
theorem mem_exposedFrom (h : m ∈ exposedFrom methods names chain) :
    ∃ above ∈ chain, m ∈ above.methods ∨ m ∈ above.fields := by
  induction chain generalizing methods names with
  | nil => cases h
  | cons above rest ih =>
    rw [exposedFrom_cons] at h
    rcases List.mem_append.mp h with h | h
    · exact ⟨above, List.mem_cons_self, (List.mem_append.mp h).imp (newMethods_subset _ _ ·)
        (newFields_subset _ _ ·)⟩
    · obtain ⟨x, hx, hm⟩ := ih h
      exact ⟨x, List.mem_cons_of_mem _ hx, hm⟩

theorem parent_of_mem_methods_or_fields (hs : s.WellFormed) (hc : s.Declares c)
    (h : m ∈ c.methods ∨ m ∈ c.fields) : m.item.parent = some c.id := by
  rw [Decl.methods_eq, Decl.fields_eq] at h
  rcases h with h | h
  · exact parent_of_member hs hc h Slot.noConfusion Slot.noConfusion
  · exact parent_of_member hs hc h Slot.noConfusion Slot.noConfusion

theorem copiesFrom_eq_map (hs : s.WellFormed) (hchain : ∀ above ∈ chain, s.Declares above) :
    copiesFrom c methods names chain = (exposedFrom methods names chain).map c.takes := by
  induction chain generalizing methods names with
  | nil => rfl
  | cons above rest ih =>
    have habove := hchain above List.mem_cons_self
    rw [copiesFrom, exposedFrom_cons, ih fun x hx => hchain x (List.mem_cons_of_mem _ hx)]
    refine Eq.trans ?_ List.map_append.symm
    refine congrArg (· ++ List.map c.takes _) (List.map_congr_left fun m hm => ?_)
    have hparent := parent_of_mem_methods_or_fields hs habove
      ((List.mem_append.mp hm).imp (newMethods_subset _ _ ·) (newFields_subset _ _ ·))
    rw [Decl.takes, hparent]
    rfl

/-! ## All classes -/

/-- The copies of a surface are those of the members that its classes take. -/
theorem inheritedCopies_eq_map (hs : s.WellFormed) :
    s.inheritedCopies = s.exposures.map fun x => x.1.takes x.2 := by
  unfold inheritedCopies exposures
  rw [List.map_flatMap]
  refine List.flatMap_congr fun c hc => ?_
  rw [List.map_map, exposedBy]
  split
  · rfl
  · exact copiesFrom_eq_map hs fun _ =>
      declares_of_mem_hiddenSuperclasses hs ((mem_classDecls hs).mp hc).1

theorem exposedBy_of_hidden (h : c.isEffectively .hidden = true) : s.exposedBy c = [] := if_pos h

theorem filter_asMethod?_exposedBy (hs : s.WellFormed) (hc : s.Declares c)
    (h : c.isEffectively .hidden = false) :
    (s.exposedBy c).filter (fun m => m.asMethod?.isSome) = newMethods c.methods (s.hiddenMethods c) := by
  rw [exposedBy, if_neg (by rw [h]; exact Bool.false_ne_true)]
  exact filter_asMethod?_exposedFrom hs fun _ => declares_of_mem_hiddenSuperclasses hs hc

theorem filter_asField?_exposedBy (hs : s.WellFormed) (hc : s.Declares c)
    (h : c.isEffectively .hidden = false) : (s.exposedBy c).filter (fun m => m.asField?.isSome) =
      newFields (c.fields.map Decl.name) (s.hiddenFields c) := by
  rw [exposedBy, if_neg (by rw [h]; exact Bool.false_ne_true)]
  exact filter_asField?_exposedFrom hs fun _ => declares_of_mem_hiddenSuperclasses hs hc

/-- What a class takes is a method or a field that one of its hidden superclasses declares. -/
theorem mem_exposedBy (h : m ∈ s.exposedBy c) : c.isEffectively .hidden = false ∧
    ∃ above ∈ s.hiddenSuperclasses c, m ∈ above.methods ∨ m ∈ above.fields := by
  unfold exposedBy at h
  split at h
  · cases h
  · next hvisible => exact ⟨Bool.eq_false_iff.mpr hvisible, mem_exposedFrom h⟩

theorem declares_of_mem_exposedBy (hs : s.WellFormed) (hc : s.Declares c) (hm : m ∈ s.exposedBy c) :
    s.Declares m := by
  obtain ⟨_, above, habove, hm⟩ := mem_exposedBy hm
  have ha := declares_of_mem_hiddenSuperclasses hs hc habove
  rw [Decl.methods_eq, Decl.fields_eq] at hm
  rcases hm with hm | hm <;> exact ((mem_members hs ha).mp hm).1

theorem role_of_mem_exposedBy (hs : s.WellFormed) (hc : s.Declares c) (hm : m ∈ s.exposedBy c) :
    m.item.payload.role = .method ∨ m.item.payload.role = .field := by
  obtain ⟨_, above, habove, hm⟩ := mem_exposedBy hm
  have ha := declares_of_mem_hiddenSuperclasses hs hc habove
  rw [Decl.methods_eq, Decl.fields_eq] at hm
  exact hm.imp (role_of_member hs ha .method) (role_of_member hs ha .field)

/-- Of pairs that come class by class, those of one class are its own. -/
theorem filter_flatMap_pairs {classes : List Decl} (hclasses : classes.Pairwise fun a b => a.id ≠ b.id)
    (hc : c ∈ classes) (taken : Decl → List Decl) (p : Decl → Bool) :
    (classes.flatMap fun d => (taken d).map fun m => (d, m)).filter
        (fun x => x.1.id == c.id && p x.2) =
      ((taken c).filter p).map fun m => (c, m) := by
  have hother : ∀ d, d.id ≠ c.id → ((taken d).map fun m => (d, m)).filter
      (fun x => x.1.id == c.id && p x.2) = [] := by
    intro d hne
    refine List.filter_eq_nil_iff.mpr fun x hx => ?_
    obtain ⟨m, _, rfl⟩ := List.mem_map.mp hx
    rw [beq_false_of_ne hne]
    exact Bool.false_ne_true
  induction classes with
  | nil => cases hc
  | cons d rest ih =>
    obtain ⟨hhead, htail⟩ := List.pairwise_cons.mp hclasses
    rw [List.flatMap_cons, List.filter_append]
    rcases List.mem_cons.mp hc with rfl | hmem
    · have hrest : (rest.flatMap fun d => (taken d).map fun m => (d, m)).filter
          (fun x => x.1.id == c.id && p x.2) = [] := by
        rw [List.filter_flatMap]
        exact List.flatMap_eq_nil_iff.mpr fun d hd => hother d (hhead d hd).symm
      rw [hrest, List.append_nil, List.filter_map]
      refine congrArg (List.map _) (List.filter_congr fun m _ => ?_)
      simp
    · rw [hother d (hhead c hmem), List.nil_append, ih htail hmem]

theorem filter_exposures (hs : s.WellFormed) (hc : s.Declares c) (hclass : c.asClass?.isSome)
    (p : Decl → Bool) : s.exposures.filter (fun x => x.1.id == c.id && p x.2) =
      ((s.exposedBy c).filter p).map fun m => (c, m) :=
  filter_flatMap_pairs (pairwise_classDecls hs) ((mem_classDecls hs).mpr ⟨hc, hclass⟩) _ p

/-- A class that takes a member, and the member. -/
theorem mem_exposures (hs : s.WellFormed) {x : Decl × Decl} (h : x ∈ s.exposures) :
    s.Declares x.1 ∧ x.1.asClass?.isSome ∧ x.2 ∈ s.exposedBy x.1 := by
  obtain ⟨c, hc, hx⟩ := List.mem_flatMap.mp h
  obtain ⟨m, hm, rfl⟩ := List.mem_map.mp hx
  obtain ⟨hd, hclass⟩ := (mem_classDecls hs).mp hc
  exact ⟨hd, hclass, hm⟩

end Surface

end ApiSurface
