import ApiSurface.Proofs.Removal
import ApiSurface.Proofs.Silence
import ApiSurface.Proofs.Twins

/-! # Reflexivity

A check of a surface against another load of itself. Everything is matched with its counterpart, and no
rule speaks about that, unless a member that the filter rejects comes in between: the old surface is not
filtered, so a rejected member may take the counterpart of an accepted one. What is then found about such
pairs is all that is found. -/
namespace ApiSurface

open Arena Surface Comparison

variable {serial : Nat} {location : String} {s : Surface} {filter : Filter} {c d o n : Decl}

theorem Surface.WellFormed.reloaded (h : s.WellFormed) : (s.reloaded serial location).WellFormed := h

theorem Decl.members_reloaded (d : Decl) (slot : Slot) :
    (d.reloaded serial location).members slot =
      (d.members slot).map (·.reloaded serial location) :=
  Surface.decls_reloaded serial location d.surface _

theorem Surface.Declares.reloaded (h : s.Declares d) :
    (s.reloaded serial location).Declares (d.reloaded serial location) := by
  unfold Surface.Declares at h ⊢
  rw [Surface.decl?_reloaded, Decl.reloaded_id, h]
  rfl

/-- A filter that answers alike for a declaration and its counterparts. -/
def Filter.IgnoresLoad (filter : Filter) : Prop :=
  ∀ (d : Decl) (serial : Nat) (location : String), filter (d.reloaded serial location) = filter d

theorem Filter.published_ignoresLoad : Filter.published.IgnoresLoad :=
  fun d serial location => Filter.published_reloaded serial location d

namespace Comparison

/-! ## Matched packages and classes -/

theorem PackagePair.eq_reloaded {p q : Decl}
    (h : PackagePair s (s.reloaded serial location) filter p q) :
    q = p.reloaded serial location := by
  have hq := h.find_new.1
  rw [Surface.findPackage?_reloaded, h.old] at hq
  cases hq
  rfl

theorem ClassesMatched.eq_reloaded (hs : s.WellFormed)
    (h : ClassesMatched s (s.reloaded serial location) filter c d) :
    d = c.reloaded serial location := by
  obtain ⟨p, q, hpq, hcd⟩ := h
  have hp := (hpq.pairSide hs hs.reloaded .old).declares
  have hd := hcd.new_mem
  rw [hpq.eq_reloaded, Decl.members_reloaded] at hd
  obtain ⟨c', hc', rfl⟩ := List.mem_map.mp hd
  rw [eq_of_mem_classes hs hp hcd.old_mem hc' hcd.name_eq]

/-! ## Nothing is added -/

theorem not_mem_methodEvents_added (hf : filter.IgnoresLoad) {newClass : Decl} {old : List Decl}
    (hmethod : ∀ o ∈ old, o.asMethod?.isSome) (n : Decl) : Event.added n ∉
      methodEvents newClass old ((old.map (·.reloaded serial location)).filter filter) := by
  intro h
  obtain ⟨⟨key, pairing⟩, hp, he⟩ := mem_methodEvents.mp h
  have hsorted : ∀ k ∈ sortedByKey old, k.decl.asMethod?.isSome :=
    fun k hk => hmethod k.decl (mem_sortedByKey hk).1
  cases pairing with
  | both a b => rcases mem_events_both.mp he with heq | ⟨_, _, _, heq⟩ <;> cases heq
  | oldOnly a => cases List.mem_singleton.mp he
  | newOnly b =>
    rw [sortedByKey_filter_reloaded fun d => hf d serial location] at hp
    exact not_mem_pairUp_newOnly hsorted (List.filter_sublist.map _) key b hp

theorem asMethod?_of_member (hs : s.WellFormed) (hc : s.Declares c) {slot : Slot}
    (hslot : IsMethodSlot slot) : ∀ o ∈ c.members slot, o.asMethod?.isSome :=
  fun _ ho => (hslot.sort_of_member hs hc ho).1

theorem not_mem_fieldEvents_added (hf : filter.IgnoresLoad) {newClass : Decl} {old : List Decl}
    (n : Decl) : Event.added n ∉
      fieldEvents newClass old ((old.map (·.reloaded serial location)).filter filter) := by
  intro h
  obtain ⟨name, he⟩ := mem_fieldEvents.mp h
  rcases mem_fieldBlock.mp he with ⟨_, _, _, _, heq⟩ | ⟨_, _, _, heq⟩ | ⟨n', ho, hn, _⟩
  · cases heq
  · cases heq
  · obtain ⟨hn, hname⟩ := firstByName_mem hn
    rw [filter_reloaded fun d => hf d serial location] at hn
    obtain ⟨o, ho', rfl⟩ := List.mem_map.mp hn
    rw [getElem?_firstByName] at ho
    have hno := List.find?_eq_none.mp ho o (List.mem_of_mem_filter ho')
    exact hno (beq_iff_eq.mpr hname)

theorem not_mem_compare_added (hs : s.WellFormed) (hf : filter.IgnoresLoad) (n : Decl) :
    Event.added n ∉ s.compare (s.reloaded serial location) filter := by
  intro h
  generalize he : Event.added n = e at h
  cases origin_of_mem_compare hs hs.reloaded h with
  | addedPackage hp hq =>
    have hq := (Option.filter_eq_some_iff.mp hq).1
    rw [Surface.findPackage?_reloaded, hp] at hq
    cases hq
  | addedClass hpq hc hd =>
    have hd := (lastByName_mem hd).1
    rw [hpq.eq_reloaded, Decl.classes_reloaded, filter_reloaded fun d => hf d serial location] at hd
    obtain ⟨c, hc', rfl⟩ := List.mem_map.mp hd
    rw [getElem?_lastByName] at hc
    have hno := List.find?_eq_none.mp hc c (List.mem_reverse.mpr (List.mem_of_mem_filter hc'))
    exact hno (beq_iff_eq.mpr rfl)
  | @member c d _ hcd hm =>
    subst he
    have hold := hcd.pairSide hs hs.reloaded .old
    have hd := hcd.eq_reloaded hs
    subst hd
    rw [mem_memberEvents, Decl.members_reloaded, Decl.members_reloaded, Decl.members_reloaded] at hm
    rcases hm with hm | hm | hm
    · exact not_mem_methodEvents_added hf
        (asMethod?_of_member hold.wellFormed hold.declares .constructors) n hm
    · exact not_mem_methodEvents_added hf
        (asMethod?_of_member hold.wellFormed hold.declares .methods) n hm
    · exact not_mem_fieldEvents_added hf n hm
  | _ => cases he

end Comparison

/-! ## Removals are not reported -/

namespace RuleContext

variable {context : RuleContext}

theorem findings_removed_of_rejected (place : Option Decl) (h : context.filter o = false) :
    context.findings (.removed o place) = [] := by
  change Rules.Presence.removed context o place = []
  unfold Rules.Presence.removed
  rw [h]
  simp

theorem findings_removed_of_removedKind {place : Option Decl}
    (h : Rules.Presence.removedKind context o place = none) :
    context.findings (.removed o place) = [] := by
  change Rules.Presence.removed context o place = []
  unfold Rules.Presence.removed
  rw [h]
  simp

/-- A removed member that the filter accepts is still there in the new class. -/
theorem findings_removed_member (hs : s.WellFormed) (hc : s.Declares c)
    (hf : context.filter.IgnoresLoad)
    (ho : o ∈ c.constructors ++ c.methods ∨ o ∈ c.fields) :
    context.findings (.removed o (some (c.reloaded serial location))) = [] := by
  cases haccept : context.filter o with
  | false => exact findings_removed_of_rejected _ haccept
  | true =>
    have hmember : ∀ {slot : Slot}, o ∈ c.members slot →
        o.reloaded serial location ∈ (c.reloaded serial location).members slot := by
      intro slot ho
      rw [Decl.members_reloaded]
      exact List.mem_map_of_mem ho
    have haccept' : context.filter (o.reloaded serial location) = true := by
      rw [hf, haccept]
    apply findings_removed_of_removedKind
    rcases ho with ho | ho
    · obtain ⟨slot, hslot, ho⟩ := mem_constructors_append_methods.mp ho
      obtain ⟨hmethod, hconstructor⟩ := hslot.sort_of_member hs hc ho
      have hmatch : o.signatureMatches (o.reloaded serial location) = true := by
        rw [Decl.signatureMatches_reloaded_right]
        exact Decl.signatureMatches_self hmethod
      rw [context.removedKind_of_method hmethod, context.isStillInherited_of_method hmethod,
        context.newView.findMethod?_of_member hslot (hmember ho) hconstructor haccept' hmatch]
      rfl
    · rw [Decl.fields_eq] at ho
      have hfield : o.asField?.isSome := o.isSome_asField?.mpr (role_of_member hs hc .field ho)
      have hfound := context.newView.findField?_of_member (hmember ho) hfield haccept'
      rw [Decl.reloaded_name] at hfound
      rw [context.removedKind_of_field hfield, context.isStillInherited_of_field hfield, hfound]
      rfl

/-- Nothing is found about the removals of a comparison with another load. -/
theorem findings_removed_of_mem_compare (hs : s.WellFormed) (hf : context.filter.IgnoresLoad)
    {place : Option Decl} (h : Event.removed o place ∈
      s.compare (s.reloaded serial location) context.filter) :
    context.findings (.removed o place) = [] := by
  generalize he : Event.removed o place = e at h
  cases origin_of_mem_compare hs hs.reloaded h with
  | removedPackage hp hq =>
    cases he
    rw [Surface.findPackage?_reloaded, hp, Option.map_some, Option.filter_some, hf] at hq
    refine findings_removed_of_rejected none (Bool.eq_false_iff.mpr fun haccept => ?_)
    rw [haccept] at hq
    cases hq
  | removedClass hpq hc hd hw =>
    cases he
    refine findings_removed_of_rejected _ (Bool.eq_false_iff.mpr fun haccept => ?_)
    rw [hpq.eq_reloaded, Decl.classes_reloaded, filter_reloaded fun d => hf d serial location,
      getElem?_lastByName] at hd
    have hmem := List.mem_filter.mpr ⟨(lastByName_mem hc).1, haccept⟩
    have hno := List.find?_eq_none.mp hd _ (List.mem_reverse.mpr (List.mem_map_of_mem hmem))
    exact hno (beq_iff_eq.mpr rfl)
  | @member c d _ hcd hm =>
    subst he
    have hold := hcd.pairSide hs hs.reloaded .old
    have hd := hcd.eq_reloaded hs
    subst hd
    obtain ⟨ho, hplace⟩ := removed_of_memberEvents hm
    rw [hplace]
    exact findings_removed_member hold.wellFormed hold.declares hf ho
  | _ => cases he

/-- All that a check against another load finds is about pairs that are no counterparts. -/
theorem mem_allFindings_iff (hs : context.oldView.primary.WellFormed)
    (ht : context.newView.primary = context.oldView.primary.reloaded serial location)
    (hf : context.filter.IgnoresLoad) {f : Finding} : f ∈ context.allFindings ↔
      ∃ o n, Event.matched o n ∈
          context.oldView.primary.compare context.newView.primary context.filter ∧
        o.id ≠ n.id ∧ f ∈ Rules.Matched.findings context o n := by
  unfold allFindings
  rw [List.mem_flatMap]
  constructor
  · rintro ⟨e, he, hfind⟩
    rw [ht] at he
    cases e with
    | matched o n =>
      refine ⟨o, n, ht ▸ he, fun hid => ?_, hfind⟩
      have hold : (Event.matched o n).on .old = some o := rfl
      have hnew : (Event.matched o n).on .new = some n := rfl
      have ho : context.oldView.primary.Declares o := declares_of_mem_compare hs hs.reloaded he hold
      have hn : (context.oldView.primary.reloaded serial location).Declares n :=
        declares_of_mem_compare hs hs.reloaded he hnew
      have ho' : (context.oldView.primary.reloaded serial location).Declares
          (o.reloaded serial location) := ho.reloaded
      -- With the same id, the new declaration is the counterpart, and nothing is said about that.
      obtain rfl := hn.eq_of_id ho' hid.symm
      change f ∈ Rules.Matched.findings context o (o.reloaded serial location) at hfind
      rw [Rules.Matched.findings_reloaded] at hfind
      cases hfind
    | removed o place =>
      rw [findings_removed_of_mem_compare hs hf he] at hfind
      cases hfind
    | added n => exact (not_mem_compare_added hs hf n he).elim
  · rintro ⟨o, n, he, _, hfind⟩
    exact ⟨.matched o n, he, hfind⟩

/-- Of the pairs whose new declaration has another id nothing is recorded. -/
def DisplacedSilent (context : RuleContext) (severities : SeverityTable) : Prop :=
  ∀ o n, Event.matched o n ∈
      context.oldView.primary.compare context.newView.primary context.filter →
    o.id ≠ n.id → ∀ f ∈ Rules.Matched.findings context o n, severities f.kind = .hidden

/-- What a check against another load reports is about pairs that are no counterparts. -/
theorem reports_eq_nil_iff (hs : context.oldView.primary.WellFormed)
    (ht : context.newView.primary = context.oldView.primary.reloaded serial location)
    (hf : context.filter.IgnoresLoad) (severities : SeverityTable) :
    context.reports severities = [] ↔ context.DisplacedSilent severities := by
  unfold reports
  rw [List.filter_eq_nil_iff]
  simp only [Finding.isRecorded, bne_iff_ne, not_not]
  constructor
  · intro h o n he hid f hfind
    exact h f ((mem_allFindings_iff hs ht hf).mpr ⟨o, n, he, hid, hfind⟩)
  · intro h f hfind
    obtain ⟨o, n, he, hid, hfind⟩ := (mem_allFindings_iff hs ht hf).mp hfind
    exact h o n he hid f hfind

end RuleContext

/-! ## No rivals -/

/-- No member that the filter rejects can take the counterpart of one that it accepts. -/
structure Surface.Unrivalled (s : Surface) (filter : Filter) : Prop where
  /-- No rejected constructor or method matches an accepted one of its class. -/
  methods : ∀ {c : Decl} {slot : Slot}, s.Declares c → IsMethodSlot slot →
    ∀ a ∈ c.members slot, ∀ b ∈ c.members slot, filter a = false → filter b = true →
      a.signatureMatches b = false
  /-- No rejected field has the name of an accepted one of its class. -/
  fields : ∀ {c : Decl}, s.Declares c → ∀ a ∈ c.members .fields, ∀ b ∈ c.members .fields,
    filter a = false → filter b = true → a.name ≠ b.name

/-- A filter that goes by names accepts or rejects all rivals alike. -/
theorem Surface.Unrivalled.of_names (s : Surface)
    (h : ∀ a b : Decl, a.name = b.name → filter a = filter b) : s.Unrivalled filter where
  methods := by
    intro c slot _ _ a _ b _ ha hb
    refine Bool.eq_false_iff.mpr fun hmatch => ?_
    rw [h a b (Decl.signatureMatches_sound hmatch).1, hb] at ha
    cases ha
  fields := by
    intro c _ a _ b _ ha hb hname
    rw [h a b hname, hb] at ha
    cases ha

namespace Comparison

theorem eq_reloaded_of_methodEvents (hs : s.WellFormed) (hc : s.Declares c) {slot : Slot}
    (hslot : IsMethodSlot slot) (hf : filter.IgnoresLoad) (h : s.Unrivalled filter) {newClass : Decl}
    (he : Event.matched o n ∈ methodEvents newClass (c.members slot)
      (((c.members slot).map (·.reloaded serial location)).filter filter)) :
    n = o.reloaded serial location := by
  obtain ⟨⟨key, pairing⟩, hp, he⟩ := mem_methodEvents.mp he
  rw [sortedByKey_filter_reloaded fun d => hf d serial location] at hp
  have hmember : ∀ k ∈ sortedByKey (c.members slot), k.decl ∈ c.members slot :=
    fun k hk => (mem_sortedByKey hk).1
  have hmethod : ∀ k ∈ sortedByKey (c.members slot), k.decl.asMethod?.isSome :=
    fun k hk => asMethod?_of_member hs hc hslot k.decl (hmember k hk)
  have hrival : (sortedByKey (c.members slot)).Pairwise fun a b => filter a.decl = false →
      filter b.decl = true → a.decl.signatureMatches b.decl = false := by
    refine List.Pairwise.imp_of_mem ?_
      (List.pairwise_of_forall (R := fun _ _ => True) fun _ _ => trivial)
    intro a b ha hb _
    exact h.methods hc hslot a.decl (hmember a ha) b.decl (hmember b hb)
  cases pairing with
  | both a b =>
    have hab := eq_reloaded_of_both hmethod hrival hp
    rcases mem_events_both.mp he with heq | ⟨x, y, hxy, heq⟩
    · cases heq
      exact hab
    · cases heq
      rw [hab] at hxy
      exact eq_reloaded_of_isParameterPair hxy
  | oldOnly a => cases List.mem_singleton.mp he
  | newOnly b => cases List.mem_singleton.mp he

/-- What a search finds a narrower search finds too, if it is still a hit. -/
theorem find?_of_imp {α : Type} {p q : α → Bool} {l : List α} {a : α} (h : l.find? p = some a)
    (ha : q a = true) (himp : ∀ x, q x = true → p x = true) : l.find? q = some a := by
  obtain ⟨_, front, back, rfl, hfront⟩ := List.find?_eq_some_iff_append.mp h
  refine List.find?_eq_some_iff_append.mpr ⟨ha, front, back, rfl, fun x hx => ?_⟩
  have hno : p x = false := by simpa using hfront x hx
  rw [Bool.not_eq_true', ← Bool.not_eq_true]
  intro hq
  rw [himp x hq] at hno
  cases hno

theorem eq_reloaded_of_fieldEvents (hc : s.Declares c) (hf : filter.IgnoresLoad)
    (h : s.Unrivalled filter) {newClass : Decl}
    (he : Event.matched o n ∈ fieldEvents newClass (c.members .fields)
      (((c.members .fields).map (·.reloaded serial location)).filter filter)) :
    n = o.reloaded serial location := by
  obtain ⟨name, he⟩ := mem_fieldEvents.mp he
  rcases mem_fieldBlock.mp he with ⟨a, b, ha, hb, heq⟩ | ⟨_, _, _, heq⟩ | ⟨_, _, _, heq⟩
  · cases heq
    rw [getElem?_firstByName] at ha hb
    rw [filter_reloaded fun d => hf d serial location, List.find?_map, List.find?_filter] at hb
    obtain ⟨b', hb', rfl⟩ := Option.map_eq_some_iff.mp hb
    have hhit := List.find?_some hb'
    obtain ⟨hbaccept, hbname⟩ := of_decide_eq_true hhit
    have haname := List.find?_some ha
    have haaccept : filter o = true := by
      by_contra hreject
      have hne := h.fields hc o (List.mem_of_find?_eq_some ha) b' (List.mem_of_find?_eq_some hb')
        (Bool.eq_false_iff.mpr hreject) hbaccept
      exact hne ((beq_iff_eq.mp haname).trans (beq_iff_eq.mp hbname).symm)
    have hfirst := find?_of_imp ha (q := fun x => decide (filter x = true ∧ (x.name == name) = true))
      (decide_eq_true ⟨haaccept, haname⟩) fun x hx => (of_decide_eq_true hx).2
    rw [Option.some.inj (hb'.symm.trans hfirst)]
  · cases heq
  · cases heq

/-- Without rivals every partner is a counterpart. -/
theorem eq_reloaded_of_matched (hs : s.WellFormed) (hf : filter.IgnoresLoad) (h : s.Unrivalled filter)
    (he : Event.matched o n ∈ s.compare (s.reloaded serial location) filter) :
    n = o.reloaded serial location := by
  generalize heq : Event.matched o n = e at he
  cases origin_of_mem_compare hs hs.reloaded he with
  | packages hpq => cases heq; exact hpq.eq_reloaded
  | classes hcd => cases heq; exact hcd.eq_reloaded hs
  | @member c d _ hcd hm =>
    subst heq
    have hc := (hcd.pairSide hs hs.reloaded .old).declares
    have hd := hcd.eq_reloaded hs
    subst hd
    rw [mem_memberEvents, Decl.members_reloaded, Decl.members_reloaded, Decl.members_reloaded] at hm
    rcases hm with hm | hm | hm
    · exact eq_reloaded_of_methodEvents hs hc .constructors hf h hm
    · exact eq_reloaded_of_methodEvents hs hc .methods hf h hm
    · exact eq_reloaded_of_fieldEvents hc hf h hm
  | _ => cases heq

end Comparison

/-! ## Checks against another load -/

namespace RuleContext

/-- Without rivals nothing is found. -/
theorem allFindings_eq_nil {context : RuleContext} (hs : context.oldView.primary.WellFormed)
    (ht : context.newView.primary = context.oldView.primary.reloaded serial location)
    (hf : context.filter.IgnoresLoad) (h : context.oldView.primary.Unrivalled context.filter) :
    context.allFindings = [] := by
  refine List.eq_nil_iff_forall_not_mem.mpr fun f hfind => ?_
  obtain ⟨o, n, he, hid, _⟩ := (mem_allFindings_iff hs ht hf).mp hfind
  rw [ht] at he
  rw [eq_reloaded_of_matched hs hf h he] at hid
  exact hid rfl

end RuleContext

/-- A check without findings reports nothing and finds no problems. -/
theorem check_clean {old new : View} {filter : Filter}
    (h : { oldView := old, newView := new, filter : RuleContext }.allFindings = [])
    (severities : SeverityTable) : (check old new filter severities).issues = [] ∧
      (check old new filter severities).foundProblems = false := by
  rw [check_issues, check_foundProblems]
  unfold RuleContext.reports
  rw [h]
  exact ⟨rfl, rfl⟩

/-- The filters that go by names. -/
theorem Filter.ignoresLoad_of_names (h : ∀ a b : Decl, a.name = b.name → filter a = filter b) :
    filter.IgnoresLoad :=
  fun d serial location => h (d.reloaded serial location) d rfl

/-- A surface is compatible with itself, loaded a second time from the same source, if the filter
accepts everything or denies some names. Neither the fallbacks of the two views nor the severities
matter, and nothing is asked of the surface. -/
theorem check_reflexive {s t : Surface} (h : SameOrigin s t) {filter : Filter}
    (hfilter : filter = .all ∨ ∃ names, filter = .denying names)
    (oldFallbacks newFallbacks : List Surface) (severities : SeverityTable) :
    let outcome := check (s.alone.extend oldFallbacks) (t.alone.extend newFallbacks) filter severities
    outcome.issues = [] ∧ outcome.foundProblems = false := by
  have hnames : ∀ a b : Decl, a.name = b.name → filter a = filter b := by
    rcases hfilter with rfl | ⟨names, rfl⟩
    · intro a b _
      rfl
    · intro a b hab
      unfold Filter.denying
      rw [hab]
  obtain ⟨serial, location, rfl⟩ := h.eq_reloaded
  refine check_clean ?_ severities
  exact RuleContext.allFindings_eq_nil h.built.wellFormed rfl (Filter.ignoresLoad_of_names hnames)
    (Unrivalled.of_names s hnames)

/-- A class that extends itself and an unknown interface, with methods that are one after erasure, and a
class that inherits copies from a hidden one. -/
def Recipe.tangled : Recipe :=
  { isPartial := true
    calls := [.packageSpec { name := "p", classes := [
      { name := "p.C", modifiers := .ofVisibility .publicAccess, superclass := some ⟨"p.C"⟩
        interfaces := [⟨"q.Unknown"⟩]
        methods := [{ name := "m", parameters := [{ type := ⟨"java.util.List<A>"⟩ }] },
          { name := "m", parameters := [{ type := ⟨"java.util.List<B>"⟩ }] }] },
      { name := "p.Hidden", flags := { hidden := true }, methods := [.published "copied"] },
      { name := "p.D", superclass := some ⟨"p.Hidden"⟩ }] }]
    changes := [{ id := ⟨1⟩, flag := .deprecated, value := true }] }

theorem check_reflexive_tangled :
    let s := Recipe.tangled.build 1 "old"
    let t := Recipe.tangled.build 2 "new"
    let outcome := check (s.alone.extend [t]) (t.alone.extend [s]) (.denying ["m"]) .standard
    outcome.issues = [] ∧ outcome.foundProblems = false :=
  check_reflexive (.recipe .tangled 1 2 "old" "new") (.inr ⟨["m"], rfl⟩) _ _ .standard

/-- What the rules may consult in a check of what is published. -/
def RuleContext.published (old new : Surface) : RuleContext :=
  { oldView := old.alone.extend [new], newView := new.alone, filter := .published }

/-- A check of what is published of a surface against another load of it reports what the rules find
about pairs that are no counterparts, and nothing else. There are no such pairs unless a rejected member
has an accepted rival. -/
theorem check_published_iff {s t : Surface} (h : SameOrigin s t) (severities : SeverityTable) :
    ((s.check t .published severities).issues = [] ↔
        (RuleContext.published s t).DisplacedSilent severities) ∧
      (s.Unrivalled .published →
        ∀ o n, Event.matched o n ∈ s.compare t .published → o.id = n.id) := by
  obtain ⟨serial, location, rfl⟩ := h.eq_reloaded
  have hs := h.built.wellFormed
  refine ⟨?_, fun hrivals o n he => ?_⟩
  · unfold Surface.check
    rw [check_issues, List.map_eq_nil_iff]
    exact RuleContext.reports_eq_nil_iff hs rfl Filter.published_ignoresLoad severities
  · rw [eq_reloaded_of_matched hs Filter.published_ignoresLoad hrivals he]
    rfl

theorem check_published_iff_tangled :
    let s := Recipe.tangled.build 1 "old"
    let t := Recipe.tangled.build 2 "new"
    SameOrigin s t ∧
      ((s.check t .published .standard).issues = [] ↔
        (RuleContext.published s t).DisplacedSilent .standard) ∧
      (s.Unrivalled .published →
        ∀ o n, Event.matched o n ∈ s.compare t .published → o.id = n.id) :=
  ⟨.recipe .tangled 1 2 "old" "new",
    check_published_iff (.recipe .tangled 1 2 "old" "new") .standard⟩

/-- A class with a hidden method, which overrides one that the class also has as a copy from a hidden
superclass. Only the copy is published, and both match it. -/
def Snapshot.shadowedCopy : Snapshot :=
  { packages := [{ name := "p", classes := [
      { name := "p.H", modifiers := .ofVisibility .publicAccess, flags := { hidden := true }
        methods := [{ MethodSpec.published "m" with returnType := some ⟨"java.lang.Number"⟩ }] },
      { name := "p.C", modifiers := .ofVisibility .publicAccess, superclass := some ⟨"p.H"⟩
        methods := [{ MethodSpec.published "m" with
          flags := { hidden := true }, returnType := some ⟨"java.lang.Integer"⟩ }] }] }] }

/-- Whether methods are declared in the order in which they are walked. -/
def Comparison.inOrder (ds : List Decl) : Bool :=
  decide (ds.Pairwise fun a b => (walkOrder (keyed a) (keyed b)).isLE = true)

theorem Comparison.sortedByKey_of_inOrder {ds : List Decl} (h : inOrder ds = true) :
    sortedByKey ds = ds.map keyed := by
  rw [sortedByKey_eq]
  exact List.mergeSort_of_pairwise (List.pairwise_map.mpr (of_decide_eq_true h))

/-- Whether the event matches two classes whose methods stand in order, and the pairs of these methods
give rise to an issue. -/
def RuleContext.shows (context : RuleContext) (severities : SeverityTable) (issue : Issue) :
    Event → Bool
  | .matched c d =>
    let accepted := d.methods.filter context.filter
    c.asClass?.isSome && inOrder c.methods && inOrder accepted &&
      (pairUp (c.methods.map keyed) (accepted.map keyed)).any fun p => (p.2.events d).any fun e =>
        (context.findings e).any fun f => f.isRecorded severities && f.issue severities == issue
  | _ => false

/-- Such an issue is reported. -/
theorem mem_issues_of_shows {s t : Surface} (hs : s.WellFormed) (ht : t.WellFormed)
    (severities : SeverityTable) (issue : Issue) (h : ∃ e ∈ s.compare t .published,
      (RuleContext.published s t).shows severities issue e = true) :
    issue ∈ (s.check t .published severities).issues := by
  obtain ⟨e, he, h⟩ := h
  unfold RuleContext.shows at h
  split at h
  · next c d =>
    simp only [Bool.and_eq_true, List.any_eq_true, beq_iff_eq] at h
    obtain ⟨⟨⟨hc, hold⟩, hnew⟩, p, hp, e', he', f, hf, hrecorded, rfl⟩ := h
    rw [Decl.methods_eq] at hold hp
    rw [Decl.methods_eq] at hnew hp
    rw [← sortedByKey_of_inOrder hold, ← sortedByKey_of_inOrder hnew] at hp
    have hmem := (ClassesMatched.of_mem_compare hs ht he hc).mem_compare_of_pairUp hs .methods hp he'
    unfold Surface.check
    rw [check_issues]
    refine List.mem_map_of_mem (List.mem_filter.mpr ⟨?_, hrecorded⟩)
    exact List.mem_flatMap.mpr ⟨e', hmem, hf⟩
  · cases h

/-- The hidden method takes the counterpart of the copy. -/
theorem check_published_shadowedCopy : ¬∀ (s t : Surface), SameOrigin s t →
    ∀ severities, (s.check t .published severities).issues = [] := by
  intro h
  have hsame := SameOrigin.recipe Snapshot.shadowedCopy.recipe 1 2 "old.json" "new.json"
  have hnew : (Snapshot.shadowedCopy.recipe.build 2 "new.json").Built := ⟨_, _, _, rfl⟩
  have hissue := mem_issues_of_shows hsame.built.wellFormed hnew.wellFormed .standard
    { kind := .changedType
      severity := .error
      subject := "method p.C.m()"
      message := "Method p.C.m() has changed return type from java.lang.Integer to " ++
        "java.lang.Number" } (by decide +kernel)
  rw [h _ _ hsame .standard] at hissue
  cases hissue

end ApiSurface
