import Mathlib.Data.List.Count
import ApiSurface.Proofs.Reflexivity

/-! # Ousted methods

A new method may be reported as added although the old class has a method with its very key. The pairing
follows the order of the keys and not how close two methods are: an old method takes the first new one that
it matches, and that may be an overload with a smaller key, which then ousts the one that has the key. So
the ousted one is taken by another old method or stays alone. The oustings form a chain that goes down the
keys, and it starts at a method whose key is new to the class. -/
namespace ApiSurface

namespace Comparison

def Precedes (a b : Decl) : Prop := (MethodKey.ofDecl a).order (.ofDecl b) = .lt

def HasTwin (ds : List Decl) (n : Decl) : Prop := ∃ d ∈ ds, MethodKey.ofDecl d = .ofDecl n

instance (a b : Decl) : Decidable (Precedes a b) := inferInstanceAs (Decidable (_ = _))

instance (ds : List Decl) (n : Decl) : Decidable (HasTwin ds n) :=
  inferInstanceAs (Decidable (∃ d ∈ ds, MethodKey.ofDecl d = .ofDecl n))

/-- How a new method loses the old one that has its key, as the events tell it. -/
inductive Ousted (events : List Event) (old new : List Decl) : Decl → Prop
  /-- The old method is matched with a rival that has a smaller key, and that key is new. -/
  | byNewcomer {o n rival : Decl} (ho : o ∈ old) (hkey : MethodKey.ofDecl o = .ofDecl n)
      (hrival : rival ∈ new) (hmatched : Event.matched o rival ∈ events) (hlt : Precedes rival n)
      (hnewcomer : ¬HasTwin old rival) : Ousted events old new n
  /-- The old method is matched with a rival that has a smaller key and is ousted itself. -/
  | byOusted {o n rival : Decl} (ho : o ∈ old) (hkey : MethodKey.ofDecl o = .ofDecl n)
      (hrival : rival ∈ new) (hmatched : Event.matched o rival ∈ events) (hlt : Precedes rival n)
      (hlost : Ousted events old new rival) : Ousted events old new n

variable {a b o n : Decl}

theorem Precedes.irrefl (a : Decl) : ¬Precedes a a := by
  have hself : (MethodKey.ofDecl a).order (.ofDecl a) = .eq := Std.ReflCmp.compare_self
  unfold Precedes
  rw [hself]
  exact nofun

theorem Precedes.trans {x : Decl} (h : Precedes a b) (h' : Precedes b x) : Precedes a x :=
  Std.TransCmp.lt_trans h h'

theorem Precedes.congr_left (h : MethodKey.ofDecl a = .ofDecl b) {x : Decl} :
    Precedes a x ↔ Precedes b x := by
  unfold Precedes
  rw [h]

theorem Precedes.congr_right (h : MethodKey.ofDecl a = .ofDecl b) {x : Decl} :
    Precedes x a ↔ Precedes x b := by
  unfold Precedes
  rw [h]

/-- Fewer methods come before one that comes before another. -/
theorem countP_precedes_lt {ds : List Decl} (ha : a ∈ ds) (h : Precedes a b) :
    (ds.countP fun d => decide (Precedes d a)) < ds.countP fun d => decide (Precedes d b) := by
  have hsame : (ds.countP fun d => decide (Precedes d a)) =
      (ds.filter fun d => decide (Precedes d b)).countP fun d => decide (Precedes d a) := by
    rw [List.countP_filter]
    refine List.countP_congr fun d _ => ?_
    simp only [Bool.and_eq_true, decide_eq_true_eq]
    exact ⟨fun hd => ⟨hd, hd.trans h⟩, fun hd => hd.1⟩
  rw [hsame, List.countP_eq_length_filter (l := ds), List.countP_lt_length_iff]
  refine ⟨a, List.mem_filter.mpr ⟨ha, decide_eq_true h⟩, ?_⟩
  exact decide_eq_false (Precedes.irrefl a)

/-! ## The pairing -/

theorem pairwise_not_precedes (ds : List Decl) :
    (sortedByKey ds).Pairwise fun a b => ¬Precedes b.decl a.decl := by
  refine (pairwise_order_ne_gt ds).imp_of_mem fun {a b} ha hb hne hlt => hne ?_
  rw [(mem_sortedByKey ha).2, (mem_sortedByKey hb).2]
  exact Std.OrientedCmp.gt_of_lt hlt

theorem pairwise_precedes {ds : List Decl} (hkeys : ds.Pairwise fun a b =>
    MethodKey.ofDecl a ≠ .ofDecl b) : (sortedByKey ds).Pairwise fun a b => Precedes a.decl b.decl := by
  refine (pairwise_order_lt hkeys).imp_of_mem fun {a b} ha hb hlt => ?_
  rw [(mem_sortedByKey ha).2, (mem_sortedByKey hb).2] at hlt
  exact hlt

/-- An old method that comes to pass over a new one that it matches, while this one is still left, has
taken a new one that comes before. -/
theorem exists_rival {old new : List Keyed} (hold : old.Pairwise fun a b => ¬Precedes b.decl a.decl)
    (hnew : new.Pairwise fun a b => Precedes a.decl b.decl) (ho : o ∈ old.map Keyed.decl)
    {p : MethodKey × Pairing} (hp : p ∈ pairUp old new) (hn : p.2.new? = some n)
    (hlate : ∀ x, p.2.old? = some x → Precedes o x) (hmatch : o.signatureMatches n = true) :
    ∃ key rival, (key, .both o rival) ∈ pairUp old new ∧ Precedes rival n := by
  induction old generalizing new with
  | nil => cases ho
  | cons first old ih =>
    obtain ⟨hfirst, hold⟩ := List.pairwise_cons.mp hold
    have hnmem := mem_of_new?_pairUp hp hn
    cases hfind : new.find? fun n => first.decl.signatureMatches n.decl with
    | none =>
      rw [pairUp_cons_none hfind] at hp ⊢
      rcases List.mem_cons.mp hp with rfl | hp
      · cases hn
      · rcases List.mem_cons.mp ho with rfl | ho
        · obtain ⟨k, hk, rfl⟩ := List.mem_map.mp hnmem
          exact (List.find?_eq_none.mp hfind k hk hmatch).elim
        · obtain ⟨key, rival, hboth, hlt⟩ := ih hold hnew ho hp
          exact ⟨key, rival, List.mem_cons_of_mem _ hboth, hlt⟩
    | some found =>
      obtain ⟨-, front, back, rfl, hfront⟩ := List.find?_eq_some_iff_append.mp hfind
      have hmiss : ∀ k ∈ front, ¬first.decl.signatureMatches k.decl = true :=
        fun k hk => by simpa using hfront k hk
      have hrest : (front ++ found :: back).eraseP (fun n => first.decl.signatureMatches n.decl) =
          front ++ back := by
        rw [List.eraseP_append_right _ hmiss, List.eraseP_cons_of_pos (List.find?_some hfind)]
      rw [pairUp_cons_some hfind, hrest] at hp ⊢
      rcases List.mem_cons.mp hp with rfl | hp
      · -- The first old method took `n` itself, but `o` does not come before it.
        have hlt := hlate first.decl rfl
        rcases List.mem_cons.mp ho with rfl | ho
        · exact (Precedes.irrefl _ hlt).elim
        · obtain ⟨k, hk, rfl⟩ := List.mem_map.mp ho
          exact (hfirst k hk hlt).elim
      · rcases List.mem_cons.mp ho with rfl | ho
        · obtain ⟨k, hk, rfl⟩ := List.mem_map.mp (mem_of_new?_pairUp hp hn)
          rcases List.mem_append.mp hk with hk | hk
          · exact (hmiss k hk hmatch).elim
          · have hlt := (List.pairwise_cons.mp (List.pairwise_append.mp hnew).2.1).1 k hk
            exact ⟨_, found.decl, List.mem_cons_self, hlt⟩
        · have hnew : (front ++ back).Pairwise fun a b => Precedes a.decl b.decl :=
            hnew.sublist (List.Sublist.append_left (List.sublist_cons_self found back) front)
          obtain ⟨key, rival, hboth, hlt⟩ := ih hold hnew ho hp
          exact ⟨key, rival, List.mem_cons_of_mem _ hboth, hlt⟩

section Chain

variable {old new : List Decl} {events : List Event}

/-- A new method that has an old twin, and that comes out alone or is taken by an old method behind this
twin, is ousted. The induction is on the number of new methods that come before. -/
theorem ousted_of_pairing (hold : ∀ d ∈ old, d.asMethod?.isSome) (hnew : ∀ d ∈ new, d.asMethod?.isSome)
    (hkeys : new.Pairwise fun a b => MethodKey.ofDecl a ≠ .ofDecl b)
    (hevents : ∀ key o n, (key, Pairing.both o n) ∈ pairUp (sortedByKey old) (sortedByKey new) →
      Event.matched o n ∈ events)
    {p : MethodKey × Pairing} (hp : p ∈ pairUp (sortedByKey old) (sortedByKey new))
    (hn : p.2.new? = some n) (hlate : ∀ x, p.2.old? = some x → Precedes n x) (htwin : HasTwin old n) :
    Ousted events old new n := by
  induction hcount : new.countP (fun d => decide (Precedes d n)) using Nat.strong_induction_on
    generalizing n p with
  | _ count ih =>
    subst hcount
    obtain ⟨o, ho, hkey⟩ := htwin
    have hmem := mem_map_decl_sortedByKey.mp (mem_of_new?_pairUp hp hn)
    have hmatch := signatureMatches_of_key (hold o ho) (hnew n hmem) hkey
    obtain ⟨key, rival, hboth, hlt⟩ := exists_rival (pairwise_not_precedes old)
      (pairwise_precedes hkeys) (mem_map_decl_sortedByKey.mpr ho) hp hn
      (fun x hx => (Precedes.congr_left hkey).mpr (hlate x hx)) hmatch
    have hrival := mem_map_decl_sortedByKey.mp (mem_of_new?_pairUp hboth rfl)
    have hmatched := hevents key o rival hboth
    by_cases htwin : HasTwin old rival
    · refine .byOusted ho hkey hrival hmatched hlt ?_
      refine ih _ (countP_precedes_lt hrival hlt) hboth rfl (fun x hx => ?_) htwin rfl
      -- The old method that took the rival has the key of `n`, and so it comes behind the rival's twin.
      cases hx
      exact (Precedes.congr_right hkey).mpr hlt
    · exact .byNewcomer ho hkey hrival hmatched hlt htwin

/-- The chain starts at a newcomer, which has taken an old method that does not come behind `n`. -/
theorem Ousted.exists_newcomer (h : Ousted events old new n) : ∃ o ∈ old, ∃ rival ∈ new,
    Event.matched o rival ∈ events ∧ Precedes rival n ∧ ¬Precedes n o ∧ ¬HasTwin old rival := by
  induction h with
  | byNewcomer ho hkey hrival hmatched hlt hnewcomer =>
    have hnot := (Precedes.congr_right hkey).not.mpr (Precedes.irrefl _)
    exact ⟨_, ho, _, hrival, hmatched, hlt, hnot, hnewcomer⟩
  | byOusted ho hkey hrival hmatched hlt hlost ih =>
    obtain ⟨o, ho, first, hfirst, hmatched, hlt', hnot, hnewcomer⟩ := ih
    exact ⟨o, ho, first, hfirst, hmatched, hlt'.trans hlt, fun h => hnot (hlt.trans h), hnewcomer⟩

end Chain

/-! ## The additions of a check -/

/-- No two constructors of a class have one key, and no two methods. -/
def HasDistinctKeys (c : Decl) : Prop := ∀ members ∈ [Decl.constructors, Decl.methods],
  (members c).Pairwise fun a b => MethodKey.ofDecl a ≠ .ofDecl b

instance (c : Decl) : Decidable (HasDistinctKeys c) :=
  inferInstanceAs (Decidable (∀ members ∈ [Decl.constructors, Decl.methods], List.Pairwise _ (members c)))

end Comparison

open Comparison

/-- The kinds of issue that call a constructor or a method added. -/
def IssueKind.addsMethod (kind : IssueKind) : Bool := kind == .addedMethod || kind == .addedAbstractMethod

/-- What a check says about new methods, of which `old` has some by their keys. `new` are the accepted ones
of a class, and `old` are those of the class that is matched with it. -/
structure TwinsKept (events : List Event) (reports : List Finding) (old new : List Decl) : Prop where
  /-- One that is reported as added although the old class has its key is ousted. -/
  ousted : ∀ f ∈ reports, f.kind.addsMethod = true → f.subject ∈ new → HasTwin old f.subject →
    Ousted events old new f.subject
  /-- One that the old class has is not reported as added if the old class has also those with smaller
  keys that match an old method whose key is not greater. -/
  kept : ∀ n ∈ new, HasTwin old n →
    (∀ rival ∈ new, Precedes rival n →
      (∃ o ∈ old, ¬Precedes n o ∧ o.signatureMatches rival = true) → HasTwin old rival) →
    ∀ f ∈ reports, f.kind.addsMethod = true → f.subject ≠ n

namespace Comparison

variable {context : RuleContext} {c d : Decl} {slot : Slot}

/-- An added constructor or method is reported because the pairing leaves it alone. -/
theorem exists_newOnly_of_report (hs : context.oldView.primary.WellFormed)
    (ht : context.newView.primary.WellFormed)
    (hcd : ClassesMatched context.oldView.primary context.newView.primary context.filter c d)
    (hslot : IsMethodSlot slot) {severities : SeverityTable} {f : Finding}
    (hf : f ∈ context.reports severities) (hkind : f.kind.addsMethod = true)
    (hmem : f.subject ∈ (d.members slot).filter context.filter) :
    ∃ key, (key, .newOnly f.subject) ∈ pairUp (sortedByKey (c.members slot))
      (sortedByKey ((d.members slot).filter context.filter)) := by
  obtain ⟨e, he, hfe⟩ := List.mem_flatMap.mp (List.mem_of_mem_filter hf)
  have haddition : f.kind.isAddition = true := by
    rcases Bool.or_eq_true_iff.mp hkind with h | h
    · rw [eq_of_beq h]; rfl
    · rw [eq_of_beq h]; rfl
  obtain rfl := context.eq_added_of_isAddition hfe haddition
  have hon : (Event.added f.subject).on .new = some f.subject := rfl
  exact added_mem_methodEvents.mp ((hcd.mem_compare_iff hs ht hslot hon hmem).mp he)

theorem ousted_of_report (hs : context.oldView.primary.WellFormed)
    (ht : context.newView.primary.WellFormed)
    (hcd : ClassesMatched context.oldView.primary context.newView.primary context.filter c d)
    (hslot : IsMethodSlot slot)
    (hkeys : (d.members slot).Pairwise fun a b => MethodKey.ofDecl a ≠ .ofDecl b)
    {severities : SeverityTable} {f : Finding} (hf : f ∈ context.reports severities)
    (hkind : f.kind.addsMethod = true) (hmem : f.subject ∈ (d.members slot).filter context.filter)
    (htwin : HasTwin (c.members slot) f.subject) :
    Ousted (context.oldView.primary.compare context.newView.primary context.filter) (c.members slot)
      ((d.members slot).filter context.filter) f.subject := by
  obtain ⟨key, hp⟩ := exists_newOnly_of_report hs ht hcd hslot hf hkind hmem
  refine ousted_of_pairing (fun o ho => ?_) (fun n hn => ?_) (hkeys.filter _) ?_ hp rfl ?_ htwin
  · exact (hcd.sort_of_old hs ht hslot ho).1
  · exact (hcd.sort_of_new hs ht hslot hn).1
  · intro key o n hboth
    exact hcd.mem_compare_of_pairUp hs hslot hboth (mem_events_both.mpr (.inl rfl))
  · intro x hx
    cases hx

theorem twinsKept_of_matched (hs : context.oldView.primary.WellFormed)
    (ht : context.newView.primary.WellFormed)
    (hcd : ClassesMatched context.oldView.primary context.newView.primary context.filter c d)
    (hslot : IsMethodSlot slot)
    (hkeys : (d.members slot).Pairwise fun a b => MethodKey.ofDecl a ≠ .ofDecl b)
    (severities : SeverityTable) :
    TwinsKept (context.oldView.primary.compare context.newView.primary context.filter)
      (context.reports severities) (c.members slot) ((d.members slot).filter context.filter) := by
  refine ⟨fun f => ousted_of_report hs ht hcd hslot hkeys, ?_⟩
  rintro n hn htwin hrivals f hf hkind rfl
  have housted := ousted_of_report hs ht hcd hslot hkeys hf hkind hn htwin
  obtain ⟨o, ho, rival, hrival, hmatched, hlt, hnot, hnewcomer⟩ := housted.exists_newcomer
  have hmatch := (matched_alike hs ht hmatched).signature (hcd.sort_of_old hs ht hslot ho).1
  exact hnewcomer (hrivals rival hrival hlt ⟨o, ho, hnot, hmatch⟩)

end Comparison

/-- A check reports an accepted new constructor or method whose key an old one has as added only if it has
been ousted, whichever surface is partial. -/
theorem check_additions (context : RuleContext) (hs : context.oldView.primary.Built)
    (ht : context.newView.primary.Built) (severities : SeverityTable) :
    (check context.oldView context.newView context.filter severities).issues =
        (context.reports severities).map (Finding.issue severities) ∧
      ∀ c d, Event.matched c d ∈
          context.oldView.primary.compare context.newView.primary context.filter →
        c.asClass?.isSome → HasDistinctKeys d →
        ∀ members ∈ [Decl.constructors, Decl.methods],
          TwinsKept (context.oldView.primary.compare context.newView.primary context.filter)
            (context.reports severities) (members c) ((members d).filter context.filter) := by
  refine ⟨check_issues context.oldView context.newView context.filter severities, ?_⟩
  intro c d hcd hc hkeys members hmembers
  have hmatched := ClassesMatched.of_mem_compare hs.wellFormed ht.wellFormed hcd hc
  have hdistinct := hkeys members hmembers
  obtain ⟨slot, hslot, rfl⟩ := exists_isMethodSlot hmembers
  exact twinsKept_of_matched hs.wellFormed ht.wellFormed hmatched hslot hdistinct severities

/-- Whether the event matches two classes with distinct keys, whose methods stand in order, and a new method
whose key the old class has is found to be added. -/
def RuleContext.oustsMethod (context : RuleContext) (severities : SeverityTable) : Event → Bool
  | .matched c d =>
    let accepted := d.methods.filter context.filter
    c.asClass?.isSome && decide (HasDistinctKeys c) && decide (HasDistinctKeys d) &&
      inOrder c.methods && inOrder accepted &&
      (pairUp (c.methods.map keyed) (accepted.map keyed)).any fun p => match p.2 with
        | .newOnly n => decide (HasTwin c.methods n) &&
          (context.findings (.added n)).any fun f => f.isRecorded severities && f.kind.addsMethod
        | _ => false
  | _ => false

/-- Then the method is reported. -/
theorem exists_report_of_oustsMethod {context : RuleContext} (hs : context.oldView.primary.WellFormed)
    (ht : context.newView.primary.WellFormed) {severities : SeverityTable}
    (h : ∃ e ∈ context.oldView.primary.compare context.newView.primary context.filter,
      context.oustsMethod severities e = true) :
    ∃ c d, Event.matched c d ∈
        context.oldView.primary.compare context.newView.primary context.filter ∧
      c.asClass?.isSome ∧ HasDistinctKeys c ∧ HasDistinctKeys d ∧
      ∃ n ∈ d.methods.filter context.filter, HasTwin c.methods n ∧
        ∃ f ∈ context.reports severities, f.kind.addsMethod = true ∧ f.subject = n := by
  obtain ⟨e, he, h⟩ := h
  unfold RuleContext.oustsMethod at h
  split at h
  · next c d =>
    simp only [Bool.and_eq_true, List.any_eq_true, decide_eq_true_eq] at h
    obtain ⟨⟨⟨⟨⟨hc, hkeys⟩, hkeys'⟩, hold⟩, hnew⟩, ⟨key, pairing⟩, hp, h⟩ := h
    split at h
    · next n hpairing =>
      obtain rfl : pairing = .newOnly n := hpairing
      simp only [Bool.and_eq_true, List.any_eq_true, decide_eq_true_eq] at h
      obtain ⟨htwin, f, hf, hrecorded, hkind⟩ := h
      rw [← sortedByKey_of_inOrder hold, ← sortedByKey_of_inOrder hnew] at hp
      have hmem := mem_map_decl_sortedByKey.mp (mem_of_new?_pairUp hp rfl)
      rw [Decl.methods_eq, Decl.methods_eq] at hp
      have hadded := (ClassesMatched.of_mem_compare hs ht he hc).mem_compare_of_pairUp hs .methods hp
        (added_mem_events.mpr rfl)
      have hreport : f ∈ context.reports severities :=
        List.mem_filter.mpr ⟨List.mem_flatMap.mpr ⟨_, hadded, hf⟩, hrecorded⟩
      exact ⟨c, d, he, hc, hkeys, hkeys', n, hmem, htwin, f, hreport, hkind,
        (Rules.Presence.mem_added hf).1⟩
    · cases h
  · cases h

/-- A method `m(T, S)` of two bounded variables. -/
def MethodSpec.ofBounds (t s : String) : MethodSpec :=
  { MethodSpec.published "m" with
    typeParameters := [{ name := "T", bounds := [⟨t⟩] }, { name := "S", bounds := [⟨s⟩] }]
    parameters := [{ type := ⟨"T"⟩ }, { type := ⟨"S"⟩ }] }

/-- A class that keeps a method and has another one with a smaller key now. The new one takes the old one:
the first parameter is the same variable as before, and the second one has the same erasure. -/
def RuleContext.squeezed : RuleContext :=
  let kept := MethodSpec.ofBounds "java.lang.Number" "java.lang.String"
  let rival := { MethodSpec.published "m" with
    typeParameters := [{ name := "T", bounds := [⟨"java.lang.Comparable"⟩] }]
    parameters := [{ type := ⟨"T"⟩ }, { type := ⟨"java.lang.String"⟩ }] }
  .published ((Recipe.ofClass [] [kept]).build 1 "old.json")
    ((Recipe.ofClass [] [rival, kept]).build 2 "new.json")

theorem squeezed_ousts : ∃ e ∈ RuleContext.squeezed.oldView.primary.compare
      RuleContext.squeezed.newView.primary RuleContext.squeezed.filter,
    RuleContext.squeezed.oustsMethod .standard e = true := by
  decide +kernel

theorem squeezed_built : RuleContext.squeezed.oldView.primary.Built ∧
    RuleContext.squeezed.newView.primary.Built :=
  ⟨⟨_, _, _, rfl⟩, ⟨_, _, _, rfl⟩⟩

theorem check_additions_squeezed :
    let context := RuleContext.squeezed
    let events := context.oldView.primary.compare context.newView.primary context.filter
    ∃ c d, Event.matched c d ∈ events ∧ HasDistinctKeys d ∧
      ∃ f ∈ context.reports .standard, f.kind.addsMethod = true ∧ HasTwin c.methods f.subject ∧
        Ousted events c.methods (d.methods.filter context.filter) f.subject := by
  obtain ⟨hs, ht⟩ := squeezed_built
  obtain ⟨c, d, he, hc, _, hkeys, n, hn, htwin, f, hf, hkind, rfl⟩ :=
    exists_report_of_oustsMethod hs.wellFormed ht.wellFormed squeezed_ousts
  have hkept := (check_additions .squeezed hs ht .standard).2 c d he hc hkeys Decl.methods
    (List.mem_cons_of_mem _ List.mem_cons_self)
  exact ⟨c, d, he, hkeys, f, hf, hkind, htwin, hkept.ousted f hf hkind hn htwin⟩

/-- That the keys are distinct does not keep an accepted method from being reported as added although the
old class has its key. -/
theorem check_adds_squeezed_twin : ¬∀ (context : RuleContext), context.oldView.primary.Built →
    context.newView.primary.Built → ∀ (severities : SeverityTable) (c d : Decl), Event.matched c d ∈
        context.oldView.primary.compare context.newView.primary context.filter →
      c.asClass?.isSome → HasDistinctKeys c → HasDistinctKeys d →
      ∀ members ∈ [Decl.constructors, Decl.methods], ∀ n ∈ members d, context.filter n = true →
        HasTwin (members c) n →
        ∀ f ∈ context.reports severities, f.kind.addsMethod = true → f.subject ≠ n := by
  intro h
  obtain ⟨hs, ht⟩ := squeezed_built
  obtain ⟨c, d, he, hc, hkeys, hkeys', n, hn, htwin, f, hf, hkind, hsubject⟩ :=
    exists_report_of_oustsMethod hs.wellFormed ht.wellFormed squeezed_ousts
  obtain ⟨hn, haccepted⟩ := List.mem_filter.mp hn
  exact h .squeezed hs ht .standard c d he hc hkeys hkeys' Decl.methods
    (List.mem_cons_of_mem _ List.mem_cons_self) n hn haccepted htwin f hf hkind hsubject

end ApiSurface
