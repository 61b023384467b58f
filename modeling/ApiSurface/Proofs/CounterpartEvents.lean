import ApiSurface.Proofs.Counterparts
import ApiSurface.Proofs.Walk

/-! # Comparisons of surfaces that mirror each other

The comparison of two surfaces and that of the two that mirror them meet twins, event by event. The walk
puts what it meets in order: packages, classes and fields by name, methods by key, parameters by position.
What is unambiguous has one place in this order, so it does not matter in which order it was declared. -/
namespace ApiSurface

open Arena Surface

/-- The surfaces mirror each other, and each of them tells its overloads apart. -/
structure Surface.Rearranges (s s' : Surface) : Prop where
  mirrors : s.Mirrors s'
  apart : s.OverloadsApart
  apart' : s'.OverloadsApart

/-! ## Filters that ask for nothing else -/

/-- The filter treats namesakes alike. -/
def Filter.Steady (filter : Filter) : Prop :=
  ∀ d d', Decl.Namesake d d' → filter d' = filter d

namespace Filter

theorem steady_all : all.Steady := fun _ _ _ => rfl

theorem steady_published : published.Steady := by
  intro d d' hn
  have hclasses := all_of_forall₂ hn.subject.selfAndClasses
    (f := fun a => a.modifiers.visibility.isAccessible)
    (g := fun a => a.modifiers.visibility.isAccessible) fun _ _ h => by rw [h.modifiers]
  unfold published
  dsimp only
  rw [hclasses, hn.subject.isEffectively, hn.subject.isEffectively]

theorem steady_denying (names : List String) : (denying names).Steady := by
  intro d d' hn
  unfold denying
  rw [hn.name]

end Filter

namespace Comparison

variable {s s' t t' : Surface} {filter : Filter} {c c' d d' p p' q q' : Decl}

/-- What two comparisons say of twins. -/
inductive EventTwins (s s' t t' : Surface) : Event → Event → Prop where
  | matched {o o' n n' : Decl} (old : s.Twins s' o o') (new : t.Twins t' n n') :
      EventTwins s s' t t' (.matched o n) (.matched o' n')
  | removed {o o' : Decl} {place place' : Option Decl} (old : s.Twins s' o o')
      (into : Option.Rel (t.Twins t') place place') :
      EventTwins s s' t t' (.removed o place) (.removed o' place')
  | added {n n' : Decl} (new : t.Twins t' n n') : EventTwins s s' t t' (.added n) (.added n')

/-! ## Methods -/

structure KeyedTwins (s s' : Surface) (k k' : Keyed) : Prop where
  key : k'.key = k.key
  decl : s.Twins s' k.decl k'.decl

inductive PairingTwins (s s' t t' : Surface) : Pairing → Pairing → Prop where
  | both {o o' n n' : Decl} (old : s.Twins s' o o') (new : t.Twins t' n n') :
      PairingTwins s s' t t' (.both o n) (.both o' n')
  | oldOnly {o o' : Decl} (old : s.Twins s' o o') : PairingTwins s s' t t' (.oldOnly o) (.oldOnly o')
  | newOnly {n n' : Decl} (new : t.Twins t' n n') : PairingTwins s s' t t' (.newOnly n) (.newOnly n')

theorem ofDecl_namesake (h : d.Namesake d') : MethodKey.ofDecl d' = .ofDecl d := by
  unfold MethodKey.ofDecl
  rw [h.name, h.parameterTypes, h.typeScope]

/-- The methods in the order of their keys, if no two match. -/
theorem sortedByKey_twins (hs : s.Mirrors s') {ds ds' : List Decl} (h : Shuffled (s.Twins s') ds ds')
    (hd : (sortedByKey ds).Pairwise fun a b => a.key.order b.key = .lt)
    (hd' : (sortedByKey ds').Pairwise fun a b => a.key.order b.key = .lt) :
    List.Forall₂ (KeyedTwins s s') (sortedByKey ds) (sortedByKey ds') := by
  obtain ⟨m, hm, hperm⟩ := h
  have hkeyed : Shuffled (KeyedTwins s s') (ds.map keyed) (ds'.map keyed) :=
    ⟨m.map keyed, List.rel_map (fun a b hab => ⟨ofDecl_namesake (hs.namesake hab), hab⟩) hm,
      hperm.map keyed⟩
  have hsorted : Shuffled (KeyedTwins s s') (sortedByKey ds) (sortedByKey ds') := by
    rw [sortedByKey_eq, sortedByKey_eq]
    exact (hkeyed.perm_left (List.mergeSort_perm _ _)).perm_right (List.mergeSort_perm _ _).symm
  refine hsorted.forall₂_of_pairwise (fun a b hab c d hcd h => ?_) (fun a b hab hba => ?_) hd hd'
  · rw [hab.key, hcd.key, h]
  · have hswap : b.key.order a.key = (a.key.order b.key).swap := by
      rw [order_eq_compareLex]
      exact Std.OrientedCmp.eq_swap
    rw [hswap, hab] at hba
    cases hba

theorem pairUp_twins (hs : s.Mirrors s') (ht : t.Mirrors t') {old old' new new' : List Keyed}
    (hold : List.Forall₂ (KeyedTwins s s') old old') (hnew : List.Forall₂ (KeyedTwins t t') new new') :
    List.Forall₂ (fun a b => b.1 = a.1 ∧ PairingTwins s s' t t' a.2 b.2) (pairUp old new)
      (pairUp old' new') := by
  induction hold generalizing new new' with
  | nil =>
    rw [pairUp_nil, pairUp_nil]
    exact List.rel_map (fun _ _ h => ⟨h.key, .newOnly h.decl⟩) hnew
  | @cons o o' _ _ ho _ ih =>
    have hmatch : ∀ n n', KeyedTwins t t' n n' →
        o'.decl.signatureMatches n'.decl = o.decl.signatureMatches n.decl :=
      fun n n' hn => (hs.namesake ho.decl).signatureMatches (ht.namesake hn.decl)
    rcases rel_cases (find?_rel hnew hmatch) with ⟨h, h'⟩ | ⟨n, n', h, h', hn⟩
    · rw [pairUp_cons_none h, pairUp_cons_none h']
      exact .cons ⟨ho.key, .oldOnly ho.decl⟩ (ih hnew)
    · rw [pairUp_cons_some h, pairUp_cons_some h']
      exact .cons ⟨ho.key, .both ho.decl hn.decl⟩ (ih (forall₂_eraseP hnew hmatch))

theorem events_twins (hs : s.Mirrors s') (ht : t.Mirrors t') (hd : t.Twins t' d d')
    {pairing pairing' : Pairing} (h : PairingTwins s s' t t' pairing pairing') :
    List.Forall₂ (EventTwins s s' t t') (pairing.events d) (pairing'.events d') := by
  cases h with
  | both ho hn =>
    refine .cons (.matched ho hn) (List.rel_map ?_ (forall₂_zip (hs.parameters ho) (ht.parameters hn)))
    exact fun _ _ h => .matched h.1 h.2
  | oldOnly ho => exact .cons (.removed ho (.some hd)) .nil
  | newOnly hn => exact .cons (.added hn) .nil

/-- The methods of twins, or their constructors, those of the new class as far as the filter accepts
them. -/
theorem methodEvents_twins (hs : s.Rearranges s') (ht : t.Rearranges t') (hf : filter.Steady)
    (hc : s.Twins s' c c') (hd : t.Twins t' d d') {role : Role} {slot : Slot}
    (hrole : MemberRole role slot) (hno : role ≠ .field) :
    List.Forall₂ (EventTwins s s' t t')
      (methodEvents d (c.members slot) ((d.members slot).filter filter))
      (methodEvents d' (c'.members slot) ((d'.members slot).filter filter)) := by
  -- In each of the four classes the keys are different.
  have hkeys : ∀ {s : Surface} {c : Decl}, s.WellFormed → s.OverloadsApart → s.Declares c →
      ∀ filter : Filter, (sortedByKey ((c.members slot).filter filter)).Pairwise fun a b =>
        a.key.order b.key = .lt := by
    intro s c hs ho hc filter
    refine pairwise_sortedByKey (fun m hm => ?_) ((ho.pairwise_members hs hc hrole hno).filter filter)
    exact isSome_asMethod?_of_member hs hc hrole hno (List.mem_of_mem_filter hm)
  have hold := hkeys hs.mirrors.left hs.apart hc.left .all
  have hold' := hkeys hs.mirrors.right hs.apart' hc.right .all
  rw [filter_all] at hold hold'
  have hpairs := pairUp_twins hs.mirrors ht.mirrors
    (sortedByKey_twins hs.mirrors (hs.mirrors.members hc slot) hold hold')
    (sortedByKey_twins ht.mirrors
      ((ht.mirrors.members hd slot).filter fun _ _ h => hf _ _ (ht.mirrors.namesake h))
      (hkeys ht.mirrors.left ht.apart hd.left filter) (hkeys ht.mirrors.right ht.apart' hd.right filter))
  unfold methodEvents
  refine List.rel_flatMap (forall₂_mergeSort hpairs ?_) fun _ _ h =>
    events_twins hs.mirrors ht.mirrors hd h.2
  rintro ⟨_, _⟩ ⟨_, _⟩ ⟨rfl, _⟩ ⟨_, _⟩ ⟨_, _⟩ ⟨rfl, _⟩
  rfl

/-! ## Tables by name -/

/-- If the names in a list differ, what stands in the tables under one name are twins. -/
structure TablesTwins (s s' : Surface) (table table' : ByName) : Prop where
  entry : ∀ name : String, Option.Rel (s.Twins s') table[name]? table'[name]?

theorem TablesTwins.mem_keys {table table' : ByName} (h : TablesTwins s s' table table')
    (name : String) : name ∈ table'.keys ↔ name ∈ table.keys := by
  rw [Std.TreeMap.mem_keys, Std.TreeMap.mem_keys, Std.TreeMap.mem_iff_isSome_getElem?,
    Std.TreeMap.mem_iff_isSome_getElem?, isSome_of_rel (h.entry name)]

theorem TablesTwins.unionNames {table table' other other' : ByName}
    (h : TablesTwins s s' table table') (h' : TablesTwins t t' other other') :
    unionNames table'.keys other'.keys = unionNames table.keys other.keys :=
  unionNames_congr h.mem_keys h'.mem_keys

theorem firstByName_twins (hs : s.Mirrors s') {ds ds' : List Decl} (h : Shuffled (s.Twins s') ds ds')
    (hone : ∀ a ∈ ds', ∀ b ∈ ds', a.name = b.name → a = b) :
    TablesTwins s s' (firstByName ds) (firstByName ds') := by
  refine ⟨fun name => ?_⟩
  rw [getElem?_firstByName, getElem?_firstByName]
  refine h.find? (fun a b hab => by rw [(hs.namesake hab).name]) fun a ha b hb hna hnb => ?_
  exact hone a ha b hb ((eq_of_beq hna).trans (eq_of_beq hnb).symm)

theorem lastByName_twins (hs : s.Mirrors s') {ds ds' : List Decl} (h : Shuffled (s.Twins s') ds ds')
    (hone : ∀ a ∈ ds', ∀ b ∈ ds', a.name = b.name → a = b) :
    TablesTwins s s' (lastByName ds) (lastByName ds') := by
  refine ⟨fun name => ?_⟩
  rw [getElem?_lastByName, getElem?_lastByName]
  have hrev : Shuffled (s.Twins s') ds.reverse ds'.reverse :=
    (h.perm_left ds.reverse_perm).perm_right ds'.reverse_perm.symm
  refine hrev.find? (fun a b hab => by rw [(hs.namesake hab).name]) fun a ha b hb hna hnb => ?_
  exact hone a (List.mem_reverse.mp ha) b (List.mem_reverse.mp hb)
    ((eq_of_beq hna).trans (eq_of_beq hnb).symm)

/-! ## Fields -/

theorem fieldEvents_twins (hs : s.Mirrors s') (ht : t.Mirrors t') (hf : filter.Steady)
    (hc : s.Twins s' c c') (hd : t.Twins t' d d') :
    List.Forall₂ (EventTwins s s' t t')
      (fieldEvents d (c.members .fields) ((d.members .fields).filter filter))
      (fieldEvents d' (c'.members .fields) ((d'.members .fields).filter filter)) := by
  have hold := firstByName_twins hs (hs.members hc .fields) fun a ha b hb =>
    hs.fieldsApart'.eq_of_name hs.right hc.right ha hb
  have hnew := firstByName_twins ht ((ht.members hd .fields).filter fun _ _ h => hf _ _ (ht.namesake h))
    fun a ha b hb => ht.fieldsApart'.eq_of_name ht.right hd.right (List.mem_of_mem_filter ha)
      (List.mem_of_mem_filter hb)
  rw [fieldEvents_eq, fieldEvents_eq, hold.unionNames hnew]
  refine forall₂_flatMap_same _ fun name => ?_
  have ho := hold.entry name
  have hn := hnew.entry name
  unfold fieldBlock
  generalize (firstByName (c.members .fields))[name]? = o at ho ⊢
  generalize (firstByName (c'.members .fields))[name]? = o' at ho ⊢
  generalize (firstByName ((d.members .fields).filter filter))[name]? = n at hn ⊢
  generalize (firstByName ((d'.members .fields).filter filter))[name]? = n' at hn ⊢
  cases ho with
  | none =>
    cases hn with
    | none => exact .nil
    | some hn => exact .cons (.added hn) .nil
  | some ho =>
    cases hn with
    | none => exact .cons (.removed ho (.some hd)) .nil
    | some hn => exact .cons (.matched ho hn) .nil

theorem memberEvents_twins (hs : s.Rearranges s') (ht : t.Rearranges t') (hf : filter.Steady)
    (hc : s.Twins s' c c') (hd : t.Twins t' d d') :
    List.Forall₂ (EventTwins s s' t t') (memberEvents filter c d) (memberEvents filter c' d') := by
  rw [memberEvents_eq, memberEvents_eq]
  exact List.rel_append (List.rel_append (methodEvents_twins hs ht hf hc hd .constructor (by decide))
    (methodEvents_twins hs ht hf hc hd .method (by decide)))
    (fieldEvents_twins hs.mirrors ht.mirrors hf hc hd)

/-! ## Classes -/

theorem isWithinUnmatched_twins {table table' : ByName} (h : TablesTwins t t' table table')
    (hn : d.Namesake d') : isWithinUnmatched d' table' = isWithinUnmatched d table := by
  unfold isWithinUnmatched Decl.enclosingClasses
  refine any_of_forall₂ (forall₂_tail hn.selfAndClasses) fun a b hab => ?_
  have hcontains : ∀ (table : ByName) (name : String), table.contains name = table[name]?.isSome :=
    fun table name => Std.TreeMap.contains_eq_isSome_getElem?
  rw [hcontains, hcontains, hab.name, isSome_of_rel (h.entry a.name)]

/-- Events that are left out together. -/
theorem forall₂_unless {b b' : Bool} (hb : b' = b) {e e' : Event} (h : EventTwins s s' t t' e e') :
    List.Forall₂ (EventTwins s s' t t') (if b then [] else [e]) (if b' then [] else [e']) := by
  subst hb
  cases b' with
  | true => exact .nil
  | false => exact .cons h .nil

theorem classEvents_twins (hs : s.Rearranges s') (ht : t.Rearranges t') (hf : filter.Steady)
    (hp : s.Twins s' p p') (hq : t.Twins t' q q') :
    List.Forall₂ (EventTwins s s' t t') (classEvents filter p q) (classEvents filter p' q') := by
  have hclasses : ∀ {s s' : Surface} {p p' : Decl}, s.Mirrors s' → s.Twins s' p p' →
      Shuffled (s.Twins s') p.classes p'.classes := by
    intro s s' p p' hs hp
    rw [Decl.classes_eq, Decl.classes_eq]
    exact hs.members hp .classes
  have hold := lastByName_twins hs.mirrors (hclasses hs.mirrors hp) fun a ha b hb =>
    eq_of_mem_classes hs.mirrors.right hp.right (Decl.classes_eq p' ▸ ha) (Decl.classes_eq p' ▸ hb)
  have hnew := lastByName_twins ht.mirrors
    ((hclasses ht.mirrors hq).filter fun _ _ h => hf _ _ (ht.mirrors.namesake h)) fun a ha b hb =>
      eq_of_mem_classes ht.mirrors.right hq.right (Decl.classes_eq q' ▸ List.mem_of_mem_filter ha)
        (Decl.classes_eq q' ▸ List.mem_of_mem_filter hb)
  rw [classEvents_eq, classEvents_eq, hold.unionNames hnew]
  refine forall₂_flatMap_same _ fun name => ?_
  have ho := hold.entry name
  have hn := hnew.entry name
  unfold classBlock
  generalize (lastByName p.classes)[name]? = o at ho ⊢
  generalize (lastByName p'.classes)[name]? = o' at ho ⊢
  generalize (lastByName (q.classes.filter filter))[name]? = n at hn ⊢
  generalize (lastByName (q'.classes.filter filter))[name]? = n' at hn ⊢
  cases ho with
  | none =>
    cases hn with
    | none => exact .nil
    | some hn =>
      exact forall₂_unless (isWithinUnmatched_twins hold (ht.mirrors.namesake hn)) (.added hn)
  | some ho =>
    cases hn with
    | none =>
      exact forall₂_unless (isWithinUnmatched_twins hnew (hs.mirrors.namesake ho)) (.removed ho (.some hq))
    | some hn => exact .cons (.matched ho hn) (memberEvents_twins hs ht hf ho hn)

/-! ## Packages -/

/-- The events of a comparison and those of the one that mirrors it are about twins, in one order. -/
theorem compare_twins (hs : s.Rearranges s') (ht : t.Rearranges t') (hf : filter.Steady) :
    List.Forall₂ (EventTwins s s' t t') (s.compare t filter) (s'.compare t' filter) := by
  rw [compare_eq, compare_eq, unionNames_congr hs.mirrors.packageDecls ht.mirrors.packageDecls]
  refine forall₂_flatMap_same _ fun name => ?_
  have ho := hs.mirrors.findPackage? name
  have hn := rel_option_filter (ht.mirrors.findPackage? name) fun _ _ h => hf _ _ (ht.mirrors.namesake h)
  unfold packageBlock
  generalize s.findPackage? name = o at ho ⊢
  generalize s'.findPackage? name = o' at ho ⊢
  generalize (t.findPackage? name).filter filter = n at hn ⊢
  generalize (t'.findPackage? name).filter filter = n' at hn ⊢
  cases ho with
  | none =>
    cases hn with
    | none => exact .nil
    | some hn => exact .cons (.added hn) .nil
  | some ho =>
    cases hn with
    | none => exact .cons (.removed ho .none) .nil
    | some hn => exact .cons (.matched ho hn) (classEvents_twins hs ht hf ho hn)

end Comparison

end ApiSurface
