import Mathlib.Data.List.Forall2
import ApiSurface.Proofs.Reflexivity

/-! # Pairing within groups

Where neither surface is partial and no type parameter is in scope, the loose test of signatures is an
equivalence: methods match iff they have one name and the same erased parameter types. The groups of such
methods do not get in each other's way, so the greedy pairing goes through each of them in turn: the first
old method with the first new one, the second with the second, and so on until one side has no more. Such a
pairing is the same from either side. -/
namespace ApiSurface

open Surface

namespace Comparison

/-- What methods of one group have in common: the name and the parameter types after erasure. -/
def MethodKey.group (key : MethodKey) : String × List String := (key.name, key.erased)

def inGroupOf (m d : Decl) : Bool := (MethodKey.ofDecl m).group == (MethodKey.ofDecl d).group

def groupOf (ds : List Decl) (m : Decl) : List Decl :=
  ((sortedByKey ds).map Keyed.decl).filter (inGroupOf m)

/-- What the events say about the constructors, or the methods, of two matched classes that are paired in
turn within each group. The new ones are those that are accepted. -/
structure PairedInTurn (events : List Event) (newClass : Decl) (old new : List Decl) : Prop where
  /-- Two are matched iff they have the same position in the same group. -/
  matched : ∀ o n, o ∈ old ∨ n ∈ new → (Event.matched o n ∈ events ↔
    ∃ k : Nat, (groupOf old o)[k]? = some o ∧ (groupOf new o)[k]? = some n)
  /-- An old one is removed iff its position is behind the new ones of its group. -/
  removed : ∀ o ∈ old, ∀ place, Event.removed o place ∈ events ↔ place = some newClass ∧
    ∃ k : Nat, (groupOf new o).length ≤ k ∧ (groupOf old o)[k]? = some o
  /-- A new one is added iff its position is behind the old ones of its group. -/
  added : ∀ n ∈ new, Event.added n ∈ events ↔
    ∃ k : Nat, (groupOf old n).length ≤ k ∧ (groupOf new n)[k]? = some n

/-- That a comparison in the opposite direction says the reverse about the constructors, or the methods, of
two matched classes. -/
structure PairedAlike (events reverse : List Event) (oldClass newClass : Decl) (old new : List Decl) :
    Prop where
  classes : Event.matched newClass oldClass ∈ reverse
  matched : ∀ o n, o ∈ old ∨ n ∈ new → (Event.matched o n ∈ events ↔ Event.matched n o ∈ reverse)
  removed : ∀ o ∈ old, Event.removed o (some newClass) ∈ events ↔ Event.added o ∈ reverse
  added : ∀ n ∈ new, Event.added n ∈ events ↔ Event.removed n (some oldClass) ∈ reverse

variable {m o n : Decl} {old new : List Keyed}

theorem inGroupOf_iff : inGroupOf m o = true ↔
    (MethodKey.ofDecl m).group = (MethodKey.ofDecl o).group := beq_iff_eq

/-! ## The loose test without type parameters -/

/-- Methods match iff they belong to one group, where no type parameter is in scope and no surface is
partial. -/
theorem signatureMatches_iff_inGroupOf (ho : o.asMethod?.isSome) (hn : n.asMethod?.isSome)
    (hscope : o.typeScope = []) (hscope' : n.typeScope = []) (hpartial : o.surface.isPartial = false)
    (hpartial' : n.surface.isPartial = false) :
    o.signatureMatches n = true ↔ inGroupOf o n = true := by
  rw [Decl.signatureMatches_iff_of_scope ho hn (hscope'.trans hscope.symm) hpartial hpartial', inGroupOf_iff]
  simp only [MethodKey.group, MethodKey.ofDecl, hscope, hscope', Prod.mk.injEq]

/-! ## The pairing, group by group -/

/-- That methods match iff they belong to one group. -/
def MatchByGroup (old new : List Keyed) : Prop :=
  ∀ o ∈ old, ∀ n ∈ new, o.decl.signatureMatches n.decl = inGroupOf o.decl n.decl

section Search

variable {α : Type} {p q : α → Bool} {l : List α}

/-- A search does not miss what a filter drops if all that it looks for passes. -/
theorem find?_filter_of_imp (h : ∀ a ∈ l, p a = true → q a = true) :
    (l.filter q).find? p = l.find? p := by
  induction l with
  | nil => rfl
  | cons a rest ih =>
    obtain ⟨ha, hrest⟩ := List.forall_mem_cons.mp h
    cases hp : p a with
    | true => rw [List.filter_cons_of_pos (ha hp), List.find?_cons_of_pos hp, List.find?_cons_of_pos hp]
    | false =>
      rw [List.find?_cons_of_neg (by simp [hp]), ← ih hrest, List.filter_cons]
      split
      · rw [List.find?_cons_of_neg (by simp [hp])]
      · rfl

theorem eraseP_filter_of_imp (h : ∀ a ∈ l, p a = true → q a = true) :
    (l.filter q).eraseP p = (l.eraseP p).filter q := by
  induction l with
  | nil => rfl
  | cons a rest ih =>
    obtain ⟨ha, hrest⟩ := List.forall_mem_cons.mp h
    cases hp : p a with
    | true => rw [List.filter_cons_of_pos (ha hp), List.eraseP_cons_of_pos hp, List.eraseP_cons_of_pos hp]
    | false =>
      rw [List.eraseP_cons_of_neg (by simp [hp]), List.filter_cons, List.filter_cons, ← ih hrest]
      split
      · rw [List.eraseP_cons_of_neg (by simp [hp])]
      · rfl

/-- A filter does not see that something is gone which it drops. -/
theorem filter_eraseP_of_imp (h : ∀ a ∈ l, p a = true → q a = false) :
    (l.eraseP p).filter q = l.filter q := by
  induction l with
  | nil => rfl
  | cons a rest ih =>
    obtain ⟨ha, hrest⟩ := List.forall_mem_cons.mp h
    cases hp : p a with
    | true => rw [List.eraseP_cons_of_pos hp, List.filter_cons_of_neg (by simp [ha hp])]
    | false =>
      rw [List.eraseP_cons_of_neg (by simp [hp]), List.filter_cons, List.filter_cons, ih hrest]

end Search

section ByGroup

def ofGroup (m : Decl) (ks : List Keyed) : List Keyed := ks.filter fun k => inGroupOf m k.decl

theorem inGroupOf_congr (h : inGroupOf o n = true) (m : Decl) : inGroupOf m o = inGroupOf m n := by
  unfold inGroupOf
  rw [inGroupOf_iff.mp h]

/-- What is paired within a group does not depend on the other groups. -/
theorem pairUp_filter (h : MatchByGroup old new) (m : Decl) :
    (pairUp old new).filter (fun p => inGroupOf m p.2.subject) =
      pairUp (ofGroup m old) (ofGroup m new) := by
  induction old generalizing new with
  | nil =>
    rw [pairUp_nil, List.filter_map]
    rfl
  | cons first old ih =>
    obtain ⟨hfirst, hold⟩ := List.forall_mem_cons.mp h
    have hsame : ∀ n ∈ new, first.decl.signatureMatches n.decl = true →
        inGroupOf m first.decl = inGroupOf m n.decl := fun n hn hmatch =>
      inGroupOf_congr ((hfirst n hn).symm.trans hmatch) m
    have hrest : MatchByGroup old (new.eraseP fun n => first.decl.signatureMatches n.decl) :=
      fun o ho n hn => hold o ho n (List.mem_of_mem_eraseP hn)
    cases hgroup : inGroupOf m first.decl with
    | true =>
      have hmember : ∀ n ∈ new, first.decl.signatureMatches n.decl = true →
          inGroupOf m n.decl = true := fun n hn hmatch => (hsame n hn hmatch).symm.trans hgroup
      have hcons : ofGroup m (first :: old) = first :: ofGroup m old := List.filter_cons_of_pos hgroup
      have hsearch : (ofGroup m new).find? (fun n => first.decl.signatureMatches n.decl) =
          new.find? fun n => first.decl.signatureMatches n.decl := find?_filter_of_imp hmember
      have herase : (ofGroup m new).eraseP (fun n => first.decl.signatureMatches n.decl) =
          ofGroup m (new.eraseP fun n => first.decl.signatureMatches n.decl) :=
        eraseP_filter_of_imp hmember
      rw [hcons]
      cases hfind : new.find? fun n => first.decl.signatureMatches n.decl with
      | none =>
        rw [pairUp_cons_none hfind, pairUp_cons_none (hsearch.trans hfind), ← ih hold]
        exact List.filter_cons_of_pos hgroup
      | some found =>
        rw [pairUp_cons_some hfind, pairUp_cons_some (hsearch.trans hfind), herase, ← ih hrest]
        exact List.filter_cons_of_pos hgroup
    | false =>
      -- A method of another group takes its partner from there.
      have hstranger : ∀ n ∈ new, first.decl.signatureMatches n.decl = true →
          inGroupOf m n.decl = false := fun n hn hmatch => (hsame n hn hmatch).symm.trans hgroup
      have hcons : ofGroup m (first :: old) = ofGroup m old :=
        List.filter_cons_of_neg (Bool.eq_false_iff.mp hgroup)
      have herase : ofGroup m (new.eraseP fun n => first.decl.signatureMatches n.decl) =
          ofGroup m new := filter_eraseP_of_imp hstranger
      rw [hcons]
      cases hfind : new.find? fun n => first.decl.signatureMatches n.decl with
      | none =>
        rw [pairUp_cons_none hfind, ← ih hold]
        exact List.filter_cons_of_neg (Bool.eq_false_iff.mp hgroup)
      | some found =>
        rw [pairUp_cons_some hfind, ← herase, ← ih hrest]
        exact List.filter_cons_of_neg (Bool.eq_false_iff.mp hgroup)

/-- The pairing in turn: by position, and the rest of the longer side alone. -/
def inTurn (old new : List Keyed) : List (MethodKey × Pairing) :=
  List.zipWith (fun o n => (o.key, Pairing.both o.decl n.decl)) old new ++
    (old.drop new.length).map (fun o => (o.key, Pairing.oldOnly o.decl)) ++
    (new.drop old.length).map fun n => (n.key, Pairing.newOnly n.decl)

/-- Where all match, they are paired in turn. -/
theorem pairUp_eq_inTurn (h : ∀ o ∈ old, ∀ n ∈ new, o.decl.signatureMatches n.decl = true) :
    pairUp old new = inTurn old new := by
  induction old generalizing new with
  | nil => simp [pairUp_nil, inTurn]
  | cons o old ih =>
    obtain ⟨ho, hold⟩ := List.forall_mem_cons.mp h
    cases new with
    | nil =>
      rw [pairUp_cons_none List.find?_nil, ih fun _ _ _ hn => (List.not_mem_nil hn).elim]
      simp [inTurn]
    | cons n new =>
      have hmatch := ho n List.mem_cons_self
      have herase : (n :: new).eraseP (fun n => o.decl.signatureMatches n.decl) = new :=
        List.eraseP_cons_of_pos hmatch
      rw [pairUp_cons_some (List.find?_cons_of_pos hmatch), herase,
        ih fun o ho n' hn => hold o ho n' (List.mem_cons_of_mem n hn)]
      rfl

/-- Pairing goes through each group in turn. -/
theorem mem_pairUp_iff (h : MatchByGroup old new) {p : MethodKey × Pairing} : p ∈ pairUp old new ↔
    p ∈ inTurn (ofGroup p.2.subject old) (ofGroup p.2.subject new) := by
  have hmatch : ∀ o ∈ ofGroup p.2.subject old, ∀ n ∈ ofGroup p.2.subject new,
      o.decl.signatureMatches n.decl = true := by
    intro o ho n hn
    obtain ⟨ho, hgroup⟩ := List.mem_filter.mp ho
    obtain ⟨hn, hgroup'⟩ := List.mem_filter.mp hn
    rw [h o ho n hn, ← inGroupOf_congr hgroup' o.decl]
    exact inGroupOf_iff.mpr (inGroupOf_iff.mp hgroup).symm
  rw [← pairUp_eq_inTurn hmatch, ← pairUp_filter h, List.mem_filter]
  exact (and_iff_left (inGroupOf_iff.mpr rfl)).symm

theorem mem_inTurn {p : MethodKey × Pairing} : p ∈ inTurn old new ↔
    (∃ (k : Nat) (a b : Keyed), old[k]? = some a ∧ new[k]? = some b ∧
        p = (a.key, .both a.decl b.decl)) ∨
      (∃ a ∈ old.drop new.length, p = (a.key, .oldOnly a.decl)) ∨
      ∃ b ∈ new.drop old.length, p = (b.key, .newOnly b.decl) := by
  unfold inTurn
  rw [List.append_assoc, List.mem_append, List.mem_append, List.mem_iff_getElem?]
  simp only [List.getElem?_zipWith_eq_some, List.mem_map, eq_comm (b := p)]

/-- What is left behind a position. -/
theorem exists_mem_drop {i : Nat} {l : List Keyed} {d : Decl} : (∃ a ∈ l.drop i, a.decl = d) ↔
    ∃ k : Nat, i ≤ k ∧ (l.map Keyed.decl)[k]? = some d := by
  rw [← List.mem_map, List.map_drop, List.mem_iff_getElem?]
  simp only [List.getElem?_drop]
  constructor
  · rintro ⟨k, hk⟩
    exact ⟨i + k, Nat.le_add_right i k, hk⟩
  · rintro ⟨k, hle, hk⟩
    exact ⟨k - i, by rwa [Nat.add_sub_cancel' hle]⟩

theorem both_mem_inTurn : (∃ key, (key, Pairing.both o n) ∈ inTurn old new) ↔
    ∃ k : Nat, (old.map Keyed.decl)[k]? = some o ∧ (new.map Keyed.decl)[k]? = some n := by
  simp only [mem_inTurn, List.getElem?_map, Option.map_eq_some_iff]
  constructor
  · rintro ⟨key, ⟨k, a, b, ha, hb, he⟩ | ⟨_, _, he⟩ | ⟨_, _, he⟩⟩
    · cases he
      exact ⟨k, ⟨a, ha, rfl⟩, ⟨b, hb, rfl⟩⟩
    · cases he
    · cases he
  · rintro ⟨k, ⟨a, ha, rfl⟩, ⟨b, hb, rfl⟩⟩
    exact ⟨a.key, .inl ⟨k, a, b, ha, hb, rfl⟩⟩

theorem oldOnly_mem_inTurn : (∃ key, (key, Pairing.oldOnly o) ∈ inTurn old new) ↔
    ∃ k : Nat, new.length ≤ k ∧ (old.map Keyed.decl)[k]? = some o := by
  rw [← exists_mem_drop]
  simp only [mem_inTurn]
  constructor
  · rintro ⟨key, ⟨_, _, _, _, _, he⟩ | ⟨a, ha, he⟩ | ⟨_, _, he⟩⟩
    · cases he
    · cases he
      exact ⟨a, ha, rfl⟩
    · cases he
  · rintro ⟨a, ha, rfl⟩
    exact ⟨a.key, .inr (.inl ⟨a, ha, rfl⟩)⟩

theorem newOnly_mem_inTurn : (∃ key, (key, Pairing.newOnly n) ∈ inTurn old new) ↔
    ∃ k : Nat, old.length ≤ k ∧ (new.map Keyed.decl)[k]? = some n := by
  rw [← exists_mem_drop]
  simp only [mem_inTurn]
  constructor
  · rintro ⟨key, ⟨_, _, _, _, _, he⟩ | ⟨_, _, he⟩ | ⟨b, hb, he⟩⟩
    · cases he
    · cases he
    · cases he
      exact ⟨b, hb, rfl⟩
  · rintro ⟨b, hb, rfl⟩
    exact ⟨b.key, .inr (.inr ⟨b, hb, rfl⟩)⟩

theorem groupOf_eq (ds : List Decl) (m : Decl) :
    groupOf ds m = (ofGroup m (sortedByKey ds)).map Keyed.decl := by
  unfold groupOf
  rw [List.filter_map]
  rfl

theorem groupOf_congr (h : inGroupOf o n = true) (ds : List Decl) : groupOf ds o = groupOf ds n := by
  have hsame : inGroupOf o = inGroupOf n := by
    funext d
    unfold inGroupOf
    rw [inGroupOf_iff.mp h]
  unfold groupOf
  rw [hsame]

end ByGroup

/-! ## Members of matched classes -/

variable {s t : Surface} {filter : Filter} {c d : Decl} {slot : Slot}

/-- A pairing in turn looks the same from both sides. -/
theorem PairedInTurn.alike {events reverse : List Event} {old new : List Decl}
    (h : PairedInTurn events d old new) (h' : PairedInTurn reverse c new old)
    (hclasses : Event.matched d c ∈ reverse) : PairedAlike events reverse c d old new where
  classes := hclasses
  matched := by
    intro o n hmember
    rw [h.matched o n hmember, h'.matched n o hmember.symm]
    constructor
    · rintro ⟨k, ho, hn⟩
      have hgroup := (List.mem_filter.mp (List.mem_of_getElem? hn)).2
      rw [groupOf_congr hgroup] at ho hn
      exact ⟨k, hn, ho⟩
    · rintro ⟨k, hn, ho⟩
      have hgroup := (List.mem_filter.mp (List.mem_of_getElem? ho)).2
      rw [groupOf_congr hgroup] at ho hn
      exact ⟨k, ho, hn⟩
  removed := by
    intro o ho
    rw [h.removed o ho, h'.added o ho, and_iff_right rfl]
  added := by
    intro n hn
    rw [h.added n hn, h'.removed n hn, and_iff_right rfl]

/-- With a filter that accepts everything, a comparison in the opposite direction matches the same
classes. -/
theorem ClassesMatched.symm (ht : t.WellFormed) (hfilter : ∀ x, filter x = true)
    (h : ClassesMatched s t filter c d) : ClassesMatched t s filter d c := by
  obtain ⟨p, q, hpq, hcd⟩ := h
  have hall : ∀ ds : List Decl, ds.filter filter = ds := fun ds =>
    List.filter_eq_self.mpr fun x _ => hfilter x
  obtain ⟨_, _, hname⟩ := (findPackage?_eq_some ht).mp hpq.find_new.1
  refine ⟨q, p, ⟨?_, ?_⟩, ⟨?_, ?_⟩⟩
  · rw [hname]
    exact hpq.find_new.1
  · rw [hname, hpq.old]
    exact Option.filter_eq_some_iff.mpr ⟨rfl, hfilter p⟩
  · have hd := hcd.new
    rwa [hall, hcd.name_eq] at hd
  · rw [hall, ← hcd.name_eq]
    exact hcd.old

theorem matchByGroup_of_members (hs : s.WellFormed) (ht : t.WellFormed)
    (hcd : ClassesMatched s t filter c d) (hslot : IsMethodSlot slot) (hpartial : s.isPartial = false)
    (hpartial' : t.isPartial = false) (hscope : ∀ o ∈ c.members slot, o.typeScope = [])
    (hscope' : ∀ n ∈ (d.members slot).filter filter, n.typeScope = []) :
    MatchByGroup (sortedByKey (c.members slot)) (sortedByKey ((d.members slot).filter filter)) := by
  intro o ho n hn
  have hold := hcd.pairSide hs ht .old
  have hnew := hcd.pairSide hs ht .new
  replace ho := (mem_sortedByKey ho).1
  replace hn := (mem_sortedByKey hn).1
  have hdo := ((mem_members hold.wellFormed hold.declares).mp ho).1
  have hdn := ((mem_members hnew.wellFormed hnew.declares).mp (List.mem_of_mem_filter hn)).1
  rw [Bool.eq_iff_iff]
  refine signatureMatches_iff_inGroupOf (hcd.sort_of_old hs ht hslot ho).1
    (hcd.sort_of_new hs ht hslot hn).1 (hscope _ ho) (hscope' _ hn) ?_ ?_
  · rw [hdo.surface]
    exact hpartial
  · rw [hdn.surface]
    exact hpartial'

theorem pairedInTurn_of_matched (hs : s.WellFormed) (ht : t.WellFormed)
    (hcd : ClassesMatched s t filter c d) (hslot : IsMethodSlot slot) (hpartial : s.isPartial = false)
    (hpartial' : t.isPartial = false) (hscope : ∀ o ∈ c.members slot, o.typeScope = [])
    (hscope' : ∀ n ∈ (d.members slot).filter filter, n.typeScope = []) :
    PairedInTurn (s.compare t filter) d (c.members slot) ((d.members slot).filter filter) := by
  have hgroups := matchByGroup_of_members hs ht hcd hslot hpartial hpartial' hscope hscope'
  constructor
  · intro o n hmember
    rw [hcd.matched_mem_compare_iff hs ht hslot hmember, groupOf_eq, groupOf_eq, ← both_mem_inTurn]
    exact exists_congr fun key => mem_pairUp_iff hgroups
  · intro o ho place
    have hon : (Event.removed o place).on .old = some o := rfl
    rw [hcd.mem_compare_iff hs ht hslot hon ho, removed_mem_methodEvents, groupOf_eq, groupOf_eq,
      List.length_map, ← oldOnly_mem_inTurn]
    exact and_congr_right fun _ => exists_congr fun key => mem_pairUp_iff hgroups
  · intro n hn
    have hon : (Event.added n).on .new = some n := rfl
    rw [hcd.mem_compare_iff hs ht hslot hon hn, added_mem_methodEvents, groupOf_eq, groupOf_eq,
      List.length_map, ← newOnly_mem_inTurn]
    exact exists_congr fun key => mem_pairUp_iff hgroups

end Comparison

namespace Surface

open Comparison

/-- Constructors and methods without type parameters in scope, of two surfaces that are not partial, are
paired in turn within their groups. Then, if the filter accepts everything, it does not matter which of the
two surfaces is the old one. -/
theorem compare_pairs_in_turn {s t : Surface} (hs : s.Built) (ht : t.Built) (hpartial : s.isPartial = false)
    (hpartial' : t.isPartial = false) (filter : Filter) :
    ∀ c d, Event.matched c d ∈ s.compare t filter → c.asClass?.isSome →
      ∀ members ∈ [Decl.constructors, Decl.methods],
        (∀ o ∈ members c, o.typeScope = []) → (∀ n ∈ (members d).filter filter, n.typeScope = []) →
        PairedInTurn (s.compare t filter) d (members c) ((members d).filter filter) ∧
          ((∀ x, filter x = true) →
            PairedAlike (s.compare t filter) (t.compare s filter) c d (members c) (members d)) := by
  intro c d he hc members hmembers hscope hscope'
  have hcd := ClassesMatched.of_mem_compare hs.wellFormed ht.wellFormed he hc
  obtain ⟨slot, hslot, rfl⟩ := exists_isMethodSlot hmembers
  have hturn := pairedInTurn_of_matched hs.wellFormed ht.wellFormed hcd hslot hpartial hpartial' hscope
    hscope'
  refine ⟨hturn, fun hfilter => ?_⟩
  have hall : ∀ ds : List Decl, ds.filter filter = ds := fun ds =>
    List.filter_eq_self.mpr fun x _ => hfilter x
  have hdc := hcd.symm ht.wellFormed hfilter
  have hturn' := pairedInTurn_of_matched ht.wellFormed hs.wellFormed hdc hslot hpartial' hpartial
    (by rwa [hall] at hscope') (by rwa [hall])
  rw [hall] at hturn hturn'
  exact hturn.alike hturn' (hdc.mem_compare ht.wellFormed (.inl rfl))

end Surface

def MethodSpec.ofList (element : String) : MethodSpec :=
  { MethodSpec.published "m" with parameters := [{ type := ⟨"java.util.List<" ++ element ++ ">"⟩ }] }

/-- A surface with one class, which has a method for lists of each of these types. -/
def Surface.ofLists (elements : List String) (serial : Nat) : Surface :=
  (Recipe.ofClass [] (elements.map .ofList)).build serial "lists"

/-- Whether the event matches two classes that have these methods, none with a type parameter in scope. -/
def Event.matchesClasses (old new : List String) : Event → Bool
  | .matched c d => c.asClass?.isSome && decide (c.methods.map Decl.describe = old) &&
    decide (d.methods.map Decl.describe = new) && (c.methods ++ d.methods).all fun m => m.typeScope.isEmpty
  | _ => false

namespace Surface

open Comparison

/-- The methods for `A` and `B` are matched with those for `B` and `C`, in this order: all have one
erasure. -/
theorem compare_pairs_in_turn_lists :
    let s := Surface.ofLists ["A", "B"] 1
    let t := Surface.ofLists ["B", "C", "D"] 2
    ∃ c d, Event.matched c d ∈ s.compare t .all ∧
      c.methods.map Decl.describe =
        ["method p.C.m(java.util.List<A>)", "method p.C.m(java.util.List<B>)"] ∧
      d.methods.map Decl.describe =
        ["method p.C.m(java.util.List<B>)", "method p.C.m(java.util.List<C>)",
          "method p.C.m(java.util.List<D>)"] ∧
      PairedInTurn (s.compare t .all) d c.methods (d.methods.filter Filter.all) ∧
      PairedAlike (s.compare t .all) (t.compare s .all) c d c.methods d.methods := by
  have hs : (Surface.ofLists ["A", "B"] 1).Built := ⟨_, _, _, rfl⟩
  have ht : (Surface.ofLists ["B", "C", "D"] 2).Built := ⟨_, _, _, rfl⟩
  obtain ⟨e, he, h⟩ : ∃ e ∈ (Surface.ofLists ["A", "B"] 1).compare (.ofLists ["B", "C", "D"] 2) .all,
      e.matchesClasses
        ["method p.C.m(java.util.List<A>)", "method p.C.m(java.util.List<B>)"]
        ["method p.C.m(java.util.List<B>)", "method p.C.m(java.util.List<C>)",
          "method p.C.m(java.util.List<D>)"] = true := by decide +kernel
  unfold Event.matchesClasses at h
  split at h
  · next c d =>
    simp only [Bool.and_eq_true, decide_eq_true_eq, List.all_append, List.all_eq_true,
      List.isEmpty_iff] at h
    obtain ⟨⟨⟨hc, hold⟩, hnew⟩, hscope, hscope'⟩ := h
    have hpairs := compare_pairs_in_turn hs ht (by decide +kernel) (by decide +kernel) .all c d he hc
      Decl.methods (List.mem_cons_of_mem _ List.mem_cons_self) hscope
      fun n hn => hscope' n (List.mem_of_mem_filter hn)
    exact ⟨c, d, he, hold, hnew, hpairs.1, hpairs.2 fun _ => rfl⟩
  · cases h

end Surface

end ApiSurface
