import ApiSurface.Proofs.Accounting
import ApiSurface.Proofs.Recording

/-! # Removed members

Which members of matched classes a check reports as removed. Two mechanisms decide it: the pairing, which
depends on the order of the methods, and then a lookup of what is left. The pairing cancels out: a member
that has been paired is found by the lookup too, because its partner is an own member of the new class and
matching is symmetric. -/
namespace ApiSurface

open Arena Surface

/-- Whether an issue of this kind is about something that is gone. -/
def IssueKind.isRemoval : IssueKind → Bool
  | .removedPackage | .removedClass | .removedMethod | .removedField => true
  | _ => false

/-- Whether an issue of this kind is about something that was not there. -/
def IssueKind.isAddition : IssueKind → Bool
  | .addedPackage | .addedClass | .addedMethod | .addedAbstractMethod | .addedField => true
  | _ => false

/-- Whether an issue of this kind is about two versions of a declaration. -/
def IssueKind.isChange (kind : IssueKind) : Bool := !kind.isAddition && !kind.isRemoval

theorem IssueKind.isRemoval_of_isChange {kind : IssueKind} (h : kind.isChange = true) :
    kind.isRemoval = false :=
  Bool.not_eq_eq_eq_not.mp (Bool.and_eq_true_iff.mp h).2

theorem IssueKind.isAddition_of_isChange {kind : IssueKind} (h : kind.isChange = true) :
    kind.isAddition = false :=
  Bool.not_eq_eq_eq_not.mp (Bool.and_eq_true_iff.mp h).1

theorem IssueKind.isRemoval_of_isAddition {kind : IssueKind} (h : kind.isAddition = true) :
    kind.isRemoval = false := by
  cases kind <;> first | rfl | cases h

/-- All that is found is about this declaration, and says how it has changed. -/
def ChangesOf (d : Decl) (findings : List Finding) : Prop :=
  ∀ f ∈ findings, f.subject = d ∧ f.kind.isChange = true

namespace ChangesOf

variable {d : Decl} {findings more : List Finding}

theorem nil : ChangesOf d [] := fun _ h => by cases h

theorem append (h : ChangesOf d findings) (h' : ChangesOf d more) : ChangesOf d (findings ++ more) := by
  intro f hf
  rcases List.mem_append.mp hf with hf | hf
  · exact h f hf
  · exact h' f hf

theorem flatMap {α : Type} {l : List α} {rule : α → List Finding} (h : ∀ a, ChangesOf d (rule a)) :
    ChangesOf d (l.flatMap rule) := by
  intro f hf
  obtain ⟨a, _, hf⟩ := List.mem_flatMap.mp hf
  exact h a f hf

theorem singleton {kind : IssueKind} {message : String} (h : kind.isChange = true) :
    ChangesOf d [{ kind, subject := d, message }] := by
  intro f hf
  rw [List.mem_singleton.mp hf]
  exact ⟨rfl, h⟩

theorem raiseIf {condition : Bool} {kind : IssueKind} {message : String} (h : kind.isChange = true) :
    ChangesOf d (ApiSurface.raiseIf condition kind d message) := by
  unfold ApiSurface.raiseIf
  split
  · exact singleton h
  · exact nil

end ChangesOf

namespace Rules.Matched

variable (context : RuleContext) (old new : Decl)

theorem nullability_changesOf : ChangesOf new (nullability old new) := by
  unfold nullability
  split
  · exact .nil
  · exact .raiseIf rfl
  · exact .raiseIf rfl

theorem classFinality_changesOf : ChangesOf new (classFinality old new) := by
  unfold classFinality
  split
  · split
    · exact .singleton rfl
    · exact .singleton rfl
  · exact .nil

theorem superclass_changesOf : ChangesOf new (superclass context old new) := by
  unfold superclass
  split
  · exact .nil
  · exact .raiseIf rfl

theorem addedInterfaces_changesOf : ChangesOf new (addedInterfaces context old new) := by
  unfold addedInterfaces
  split
  · exact .nil
  · exact .flatMap fun _ => .raiseIf rfl

theorem classRules_changesOf : ChangesOf new (classRules context old new) := by
  unfold classRules
  split
  · refine .append (.append (.append (.append (.append (.append (.append ?_ ?_) ?_) ?_) ?_) ?_) ?_) ?_
    · exact .raiseIf rfl
    · exact .raiseIf rfl
    · exact classFinality_changesOf old new
    · exact .raiseIf rfl
    · exact .raiseIf rfl
    · exact .flatMap fun _ => .raiseIf rfl
    · exact addedInterfaces_changesOf context old new
    · exact superclass_changesOf context old new
  · exact .nil

theorem methodFinality_changesOf : ChangesOf new (methodFinality old new) := by
  unfold methodFinality
  split
  · split
    · exact .singleton rfl
    · exact .singleton rfl
    · exact .nil
  · exact .nil

theorem returnType_changesOf : ChangesOf new (returnType context old new) := by
  unfold returnType
  split
  · exact .raiseIf rfl
  · exact .nil

theorem exceptions_changesOf : ChangesOf new (exceptions context old new) := by
  unfold exceptions
  split
  · split
    · exact .nil
    · exact .append (.flatMap fun _ => .raiseIf rfl) (.flatMap fun _ => .raiseIf rfl)
  · exact .nil

theorem methodRules_changesOf : ChangesOf new (methodRules context old new) := by
  unfold methodRules
  refine .append (.append (.append (.append (.append (.append (.append ?_ ?_) ?_) ?_) ?_) ?_) ?_) ?_
  · exact .raiseIf rfl
  · split
    · exact .nil
    · exact nullability_changesOf old new
  · exact methodFinality_changesOf old new
  · exact .raiseIf rfl
  · exact .raiseIf rfl
  · exact .raiseIf rfl
  · exact returnType_changesOf context old new
  · exact exceptions_changesOf context old new

theorem constantValue_changesOf (was now : FieldInfo) :
    ChangesOf new (constantValue new was now) := by
  unfold constantValue
  split
  · exact .nil
  · exact .raiseIf rfl
  · exact .raiseIf rfl

theorem fieldRules_changesOf : ChangesOf new (fieldRules old new) := by
  unfold fieldRules
  split
  · refine .append (.append (.append (.append (.append ?_ ?_) ?_) ?_) ?_) ?_
    · exact .raiseIf rfl
    · exact nullability_changesOf old new
    · exact .raiseIf rfl
    · exact .raiseIf rfl
    · exact .raiseIf rfl
    · exact constantValue_changesOf new _ _
  · exact .nil

theorem parameterName_changesOf (was now : ParameterInfo) :
    ChangesOf new (parameterName old new was now) := by
  unfold parameterName
  split
  · exact .nil
  · exact .raiseIf rfl
  · exact .raiseIf rfl

theorem parameterRules_changesOf : ChangesOf new (parameterRules old new) := by
  unfold parameterRules
  split
  · refine .append (.append (.append ?_ ?_) ?_) ?_
    · exact nullability_changesOf old new
    · exact parameterName_changesOf old new _ _
    · exact .raiseIf rfl
    · exact .raiseIf rfl
  · exact .nil

/-- What is found about a matched pair is a change of the new version. -/
theorem findings_changesOf : ChangesOf new (findings context old new) := by
  have hdeprecation : ChangesOf new (deprecation old new) := .raiseIf rfl
  unfold findings
  split
  · exact hdeprecation
  · exact hdeprecation.append (classRules_changesOf context old new)
  · exact hdeprecation.append (methodRules_changesOf context old new)
  · exact hdeprecation.append (methodRules_changesOf context old new)
  · exact hdeprecation.append (fieldRules_changesOf old new)
  · exact parameterRules_changesOf old new

end Rules.Matched

/-- What is found about an addition says of it that it was not there. -/
theorem Rules.Presence.mem_added {context : RuleContext} {new : Decl} {f : Finding}
    (hf : f ∈ added context new) : f.subject = new ∧ f.kind.isAddition = true := by
  have hmethod : ∀ kind, addedMethodKind context new = some kind → kind.isAddition = true := by
    intro kind h
    unfold addedMethodKind at h
    repeat' split at h
    all_goals first | cases h; rfl | cases h
  have hkind : ∀ kind, addedKind context new = some kind → kind.isAddition = true := by
    intro kind h
    unfold addedKind at h
    split at h
    · cases h; rfl
    · cases h; rfl
    · cases h; rfl
    · cases h; rfl
    · exact hmethod kind h
    · cases h
  unfold added at hf
  split at hf
  · cases hf
  · split at hf
    · next kind h =>
      rw [List.mem_singleton.mp hf]
      exact ⟨rfl, hkind kind h⟩
    · cases hf

def verdicts (kind : IssueKind) (x : Decl) (findings : List Finding) : Nat :=
  findings.countP fun f => f.kind == kind && f.subject.isSame x

namespace RuleContext

variable {context : RuleContext} {kind : IssueKind} {o : Decl}

/-- Whether users could see the old declaration, so that they may miss it. -/
def wasVisible (context : RuleContext) (o : Decl) : Bool :=
  o.isEmitted && context.filter o && !o.isEffectively .hidden

/-- What is found about a removal is said of what has gone, and only if users could see it. -/
theorem mem_removed {place : Option Decl} {f : Finding}
    (hf : f ∈ Rules.Presence.removed context o place) : f.subject = o ∧ context.wasVisible o = true ∧
      Rules.Presence.removedKind context o place = some f.kind := by
  unfold Rules.Presence.removed at hf
  split at hf
  · cases hf
  · next hvisible =>
    split at hf
    · next kind hkind =>
      rw [List.mem_singleton.mp hf]
      refine ⟨rfl, ?_, hkind⟩
      simpa [wasVisible, and_assoc] using hvisible
    · cases hf

theorem isRemoval_of_removedKind {place : Option Decl}
    (h : Rules.Presence.removedKind context o place = some kind) :
    kind.isRemoval = true ∧ o.asParameter? = none := by
  unfold Rules.Presence.removedKind at h
  unfold Decl.asParameter?
  cases hpay : o.item.payload <;> rw [hpay] at h <;> dsimp only at h
  case parameter => cases h
  all_goals
    refine ⟨?_, rfl⟩
    repeat' split at h
    all_goals first | cases h; rfl | cases h

/-- What says that something is gone says it of the old declaration of a removal. -/
theorem exists_removed_of_isRemoval {e : Event} {f : Finding} (hf : f ∈ context.findings e)
    (hkind : f.kind.isRemoval = true) : ∃ place, e = .removed f.subject place := by
  cases e with
  | matched old new =>
    have hchange := (Rules.Matched.findings_changesOf context old new f hf).2
    rw [IssueKind.isRemoval_of_isChange hchange] at hkind
    cases hkind
  | added new =>
    rw [IssueKind.isRemoval_of_isAddition (Rules.Presence.mem_added hf).2] at hkind
    cases hkind
  | removed old place =>
    rw [(mem_removed hf).1]
    exact ⟨place, rfl⟩

/-- What says that something was not there says it of the new declaration of an addition. -/
theorem eq_added_of_isAddition {e : Event} {f : Finding} (hf : f ∈ context.findings e)
    (hkind : f.kind.isAddition = true) : e = .added f.subject := by
  cases e with
  | matched old new =>
    have hchange := (Rules.Matched.findings_changesOf context old new f hf).2
    rw [IssueKind.isAddition_of_isChange hchange] at hkind
    cases hkind
  | added new => rw [(Rules.Presence.mem_added hf).1]
  | removed old place =>
    have hremoval := (isRemoval_of_removedKind (mem_removed hf).2.2).1
    rw [IssueKind.isRemoval_of_isAddition hkind] at hremoval
    cases hremoval

theorem verdicts_eq_zero (hkind : kind.isRemoval = true) {e : Event}
    (he : e.concerns .old o.id = false) : verdicts kind o (context.findings e) = 0 := by
  refine List.countP_eq_zero.mpr fun f hf hverdict => ?_
  obtain ⟨hk, hsame⟩ := Bool.and_eq_true_iff.mp hverdict
  obtain ⟨place, rfl⟩ := exists_removed_of_isRemoval hf (by rw [eq_of_beq hk]; exact hkind)
  have hid := eq_of_beq (Bool.and_eq_true_iff.mp hsame).2
  have hconcerns : (Event.removed f.subject place).concerns .old o.id = true :=
    Event.concerns_iff.mpr ⟨f.subject, rfl, hid⟩
  rw [hconcerns] at he
  cases he

theorem verdicts_matched (hkind : kind.isRemoval = true) (old new : Decl) :
    verdicts kind o (context.findings (.matched old new)) = 0 := by
  refine List.countP_eq_zero.mpr fun f hf hverdict => ?_
  have hchange := (Rules.Matched.findings_changesOf context old new f hf).2
  rw [eq_of_beq (Bool.and_eq_true_iff.mp hverdict).1] at hchange
  rw [IssueKind.isRemoval_of_isChange hchange] at hkind
  cases hkind

/-- Only the events about a declaration say that it is gone. -/
theorem verdicts_flatMap_filter (hkind : kind.isRemoval = true) (events : List Event) :
    verdicts kind o (events.flatMap context.findings) =
      verdicts kind o ((events.filter (Event.concerns .old o.id)).flatMap context.findings) := by
  induction events with
  | nil => rfl
  | cons e rest ih =>
    unfold verdicts at ih ⊢
    rw [List.flatMap_cons, List.countP_append, ih]
    cases h : e.concerns .old o.id with
    | true => rw [List.filter_cons_of_pos h, List.flatMap_cons, List.countP_append]
    | false =>
      have hzero : (context.findings e).countP (fun f => f.kind == kind && f.subject.isSame o) = 0 :=
        verdicts_eq_zero hkind h
      rw [List.filter_cons_of_neg (by rw [h]; exact Bool.false_ne_true), hzero, Nat.zero_add]

/-- One event speaks for a declaration, so the whole check says what that one says. -/
theorem verdicts_flatMap (hkind : kind.isRemoval = true) {e : Event} {events : List Event}
    (he : e ∈ events) (hconcerns : e.concerns .old o.id = true)
    (honce : occurrences .old o events = 1) :
    verdicts kind o (events.flatMap context.findings) = verdicts kind o (context.findings e) := by
  unfold occurrences at honce
  rw [List.countP_eq_length_filter] at honce
  obtain ⟨e', hfilter⟩ := List.length_eq_one_iff.mp honce
  have hmem : e ∈ events.filter (Event.concerns .old o.id) := List.mem_filter.mpr ⟨he, hconcerns⟩
  rw [hfilter, List.mem_singleton] at hmem
  rw [verdicts_flatMap_filter hkind, hfilter, hmem, List.flatMap_singleton]

/-- Severities that record the kind keep all verdicts of it. -/
theorem verdicts_reports {severities : SeverityTable} (h : severities kind ≠ .hidden) (o : Decl) :
    verdicts kind o (context.reports severities) = verdicts kind o context.allFindings := by
  unfold verdicts reports
  rw [List.countP_filter]
  refine List.countP_congr fun f _ => ?_
  simp only [Finding.isRecorded, Bool.and_eq_true, beq_iff_eq, bne_iff_ne]
  constructor
  · rintro ⟨hf, _⟩
    exact hf
  · rintro ⟨hkind, hsame⟩
    exact ⟨⟨hkind, hsame⟩, hkind ▸ h⟩

/-! ## Removed and paired members -/

/-- A removal is reported once if the declaration was visible and the removal counts. -/
theorem verdicts_removed (o : Decl) (place : Option Decl) :
    verdicts kind o (context.findings (.removed o place)) =
      if context.wasVisible o = true ∧ Rules.Presence.removedKind context o place = some kind then 1
      else 0 := by
  have hsame : o.isSame o = true := by simp [Decl.isSame]
  have hseen : (!o.isEmitted || !context.filter o || o.isEffectively .hidden) =
      !context.wasVisible o := by
    unfold wasVisible
    rw [Bool.not_and, Bool.not_and, Bool.not_not]
  change verdicts kind o (Rules.Presence.removed context o place) = _
  unfold Rules.Presence.removed verdicts
  rw [hseen]
  cases context.wasVisible o with
  | false => simp
  | true =>
    cases hk : Rules.Presence.removedKind context o place with
    | none => simp
    | some kind' => simp [hsame, List.countP_cons]

open Rules.Presence

/-- A constructor or method is asked for as it is, -/
theorem isStillInherited_of_method (ho : o.asMethod?.isSome) (d : Decl) :
    isStillInherited context o (some d) =
      (context.newView.findMethod? d o true true context.filter).isSome := by
  unfold isStillInherited Decl.asField?
  unfold Decl.asMethod? at ho
  cases hpay : o.item.payload with
  | field info => rw [hpay] at ho; cases ho
  | _ => rfl

/-- and a field by its name. -/
theorem isStillInherited_of_field (ho : o.asField?.isSome) (d : Decl) :
    isStillInherited context o (some d) =
      (context.newView.findField? d o.name true true context.filter).isSome := by
  obtain ⟨info, hinfo⟩ := Option.isSome_iff_exists.mp ho
  unfold isStillInherited
  rw [hinfo, o.name_of_asField? hinfo]

theorem removedKind_of_method (ho : o.asMethod?.isSome) (place : Option Decl) :
    removedKind context o place =
      if isStillInherited context o place then none else some .removedMethod := by
  unfold removedKind
  unfold Decl.asMethod? at ho
  cases hpay : o.item.payload with
  | method info => rfl
  | constructor info => rfl
  | _ => rw [hpay] at ho; cases ho

theorem removedKind_of_field (ho : o.asField?.isSome) (place : Option Decl) :
    removedKind context o place =
      if isStillInherited context o place then none else some .removedField := by
  unfold removedKind
  unfold Decl.asField? at ho
  cases hpay : o.item.payload with
  | field info => rfl
  | _ => rw [hpay] at ho; cases ho

end RuleContext

namespace View

open Comparison

variable {v : View} {s : Surface} {d o n : Decl} {filter : Filter}

/-- An accepted constructor or method of a class is found in the place of one that matches it. -/
theorem findMethod?_of_member {slot : Slot} (hslot : IsMethodSlot slot)
    (hn : n ∈ d.members slot) (hkind : o.isConstructor = (slot == .constructors))
    (hf : filter n = true) (hmatch : o.signatureMatches n = true) :
    (v.findMethod? d o true true filter).isSome := by
  have hhit : (n.signatureMatches o && filter n) = true := by
    rw [Decl.signatureMatches_comm, hmatch, hf]
    rfl
  have hfind : ((d.members slot).find? fun candidate =>
      candidate.signatureMatches o && filter candidate).isSome :=
    List.find?_isSome.mpr ⟨n, hn, hhit⟩
  simp only [findMethod?, hkind, Decl.constructors_eq, Decl.methods_eq]
  cases hslot with
  | constructors => exact hfind
  | methods =>
    rw [if_neg (by decide), Option.isSome_or, hfind]
    rfl

/-- An accepted field of a class is found by its name. -/
theorem findField?_of_member (hn : n ∈ d.members .fields) (hfield : n.asField?.isSome)
    (hf : filter n = true) : (v.findField? d n.name true true filter).isSome := by
  obtain ⟨info, hinfo⟩ := Option.isSome_iff_exists.mp hfield
  have hhit : ((n.asField?.any fun info => info.name == n.name) && filter n) = true := by
    simp [hinfo, n.name_of_asField? hinfo, hf]
  have hfind : ((d.members .fields).find? fun candidate =>
      (candidate.asField?.any fun info => info.name == n.name) && filter candidate).isSome :=
    List.find?_isSome.mpr ⟨n, hn, hhit⟩
  simp only [findField?, Decl.fields_eq, Option.isSome_or, hfind, Bool.true_or]

end View

/-- The removals that are reported in a matched pair of classes: the verdict on a member depends on what
the new class is asked for, and not on the partner that the member has found or missed. -/
structure RemovalsDecided (context : RuleContext) (reports : List Finding) (c d : Decl) : Prop where
  /-- A constructor or method is missed if it was visible and nothing matches it now. -/
  methods : ∀ o ∈ c.constructors ++ c.methods, verdicts .removedMethod o reports =
    if context.wasVisible o = true ∧
      context.newView.findMethod? d o true true context.filter = none then 1 else 0
  /-- A field, the first of its name, is missed if it was visible and none has its name now. -/
  fields : ∀ o, c.fields.find? (·.name == o.name) = some o → verdicts .removedField o reports =
    if context.wasVisible o = true ∧
      context.newView.findField? d o.name true true context.filter = none then 1 else 0

namespace Comparison

variable {context : RuleContext} {c d o : Decl}

/-- A declaration that has a partner is not said to be gone. -/
theorem verdicts_of_matched (hs : context.oldView.primary.WellFormed)
    (ht : context.newView.primary.WellFormed) {kind : IssueKind} (hkind : kind.isRemoval = true)
    {n : Decl} (he : .matched o n ∈
      context.oldView.primary.compare context.newView.primary context.filter) :
    verdicts kind o context.allFindings = 0 := by
  have ho : (Event.matched o n).on .old = some o := rfl
  unfold RuleContext.allFindings
  rw [context.verdicts_flatMap hkind he (concerns_of_on ho) (occurrences_eq_one hs ht he ho)]
  exact context.verdicts_matched hkind o n

/-- A declaration without a partner is said to be gone if it was visible and that counts. -/
theorem verdicts_of_removed (hs : context.oldView.primary.WellFormed)
    (ht : context.newView.primary.WellFormed) {kind : IssueKind} (hkind : kind.isRemoval = true)
    {place : Option Decl} (he : .removed o place ∈
      context.oldView.primary.compare context.newView.primary context.filter) :
    verdicts kind o context.allFindings =
      if context.wasVisible o = true ∧ Rules.Presence.removedKind context o place = some kind then 1
      else 0 := by
  have ho : (Event.removed o place).on .old = some o := rfl
  unfold RuleContext.allFindings
  rw [context.verdicts_flatMap hkind he (concerns_of_on ho) (occurrences_eq_one hs ht he ho)]
  exact context.verdicts_removed o place

theorem IsMethodSlot.sort_of_member {slot : Slot} (hslot : IsMethodSlot slot) {s : Surface}
    (hs : s.WellFormed) (hc : s.Declares c) (ho : o ∈ c.members slot) :
    o.asMethod?.isSome ∧ o.isConstructor = (slot == .constructors) := by
  unfold Decl.asMethod? Decl.isConstructor
  cases hslot with
  | constructors =>
    have hrole := role_of_member hs hc .constructor ho
    cases hpay : o.item.payload with
    | constructor info => exact ⟨rfl, rfl⟩
    | _ => rw [hpay] at hrole; cases hrole
  | methods =>
    have hrole := role_of_member hs hc .method ho
    cases hpay : o.item.payload with
    | method info => exact ⟨rfl, rfl⟩
    | _ => rw [hpay] at hrole; cases hrole

theorem ClassesMatched.sort_of_old {s t : Surface} {filter : Filter} {slot : Slot} (hs : s.WellFormed)
    (ht : t.WellFormed) (hcd : ClassesMatched s t filter c d) (hslot : IsMethodSlot slot)
    (ho : o ∈ c.members slot) : o.asMethod?.isSome ∧ o.isConstructor = (slot == .constructors) :=
  have hold := hcd.pairSide hs ht .old
  hslot.sort_of_member hold.wellFormed hold.declares ho

theorem ClassesMatched.sort_of_new {s t : Surface} {filter : Filter} {slot : Slot} (hs : s.WellFormed)
    (ht : t.WellFormed) (hcd : ClassesMatched s t filter c d) (hslot : IsMethodSlot slot)
    (hn : o ∈ (d.members slot).filter filter) :
    o.asMethod?.isSome ∧ o.isConstructor = (slot == .constructors) :=
  have hnew := hcd.pairSide hs ht .new
  hslot.sort_of_member hnew.wellFormed hnew.declares (List.mem_of_mem_filter hn)

theorem verdicts_of_method (hs : context.oldView.primary.WellFormed)
    (ht : context.newView.primary.WellFormed) {slot : Slot} (hslot : IsMethodSlot slot)
    (hcd : ClassesMatched context.oldView.primary context.newView.primary context.filter c d)
    (ho : o ∈ c.members slot) : verdicts .removedMethod o context.allFindings =
      if context.wasVisible o = true ∧
        context.newView.findMethod? d o true true context.filter = none then 1 else 0 := by
  obtain ⟨hmethod, hconstructor⟩ := hcd.sort_of_old hs ht hslot ho
  rcases exists_event_of_old d ((d.members slot).filter context.filter) ho with
    ⟨n, hn, hmatch, he⟩ | he
  · obtain ⟨hn, hf⟩ := List.mem_filter.mp hn
    have hfound := context.newView.findMethod?_of_member hslot hn hconstructor hf hmatch
    have hmem := hcd.mem_compare hs (.inr (hslot.mem_memberEvents he))
    rw [verdicts_of_matched hs ht rfl hmem, if_neg]
    rintro ⟨_, hnone⟩
    rw [hnone] at hfound
    cases hfound
  · have hmem := hcd.mem_compare hs (.inr (hslot.mem_memberEvents he))
    rw [verdicts_of_removed hs ht rfl hmem]
    simp [context.removedKind_of_method hmethod, context.isStillInherited_of_method hmethod]

theorem verdicts_of_field (hs : context.oldView.primary.WellFormed)
    (ht : context.newView.primary.WellFormed)
    (hcd : ClassesMatched context.oldView.primary context.newView.primary context.filter c d)
    (ho : (c.members .fields).find? (·.name == o.name) = some o) :
    verdicts .removedField o context.allFindings =
      if context.wasVisible o = true ∧
        context.newView.findField? d o.name true true context.filter = none then 1 else 0 := by
  have hold := hcd.pairSide hs ht .old
  have hnew := hcd.pairSide hs ht .new
  have hfield : o.asField?.isSome := o.isSome_asField?.mpr
    (role_of_member hold.wellFormed hold.declares .field (List.mem_of_find?_eq_some ho))
  have hfirst : (firstByName (c.members .fields))[o.name]? = some o := by
    rw [getElem?_firstByName]
    exact ho
  have hmem : ∀ {e}, e ∈ fieldBlock d (c.members .fields)
      ((d.members .fields).filter context.filter) o.name →
      e ∈ context.oldView.primary.compare context.newView.primary context.filter := by
    intro e he
    refine hcd.mem_compare hs (.inr (mem_memberEvents.mpr (.inr (.inr ?_))))
    exact mem_fieldEvents.mpr ⟨o.name, he⟩
  -- Fields are joined by name, so whether `o` is paired and what the lookup finds go together.
  cases hn : (firstByName ((d.members .fields).filter context.filter))[o.name]? with
  | some n =>
    obtain ⟨hmember, hname⟩ := firstByName_mem hn
    obtain ⟨hmember, hf⟩ := List.mem_filter.mp hmember
    have hfield' : n.asField?.isSome := n.isSome_asField?.mpr
      (role_of_member hnew.wellFormed hnew.declares .field hmember)
    have hfound := context.newView.findField?_of_member hmember hfield' hf
    have he := hmem (mem_fieldBlock.mpr (.inl ⟨o, n, hfirst, hn, rfl⟩))
    rw [verdicts_of_matched hs ht rfl he, if_neg]
    rintro ⟨_, hnone⟩
    rw [hname, hnone] at hfound
    cases hfound
  | none =>
    have he := hmem (mem_fieldBlock.mpr (.inr (.inl ⟨o, hfirst, hn, rfl⟩)))
    rw [verdicts_of_removed hs ht rfl he]
    simp [context.removedKind_of_field hfield, context.isStillInherited_of_field hfield]

end Comparison

open Comparison

/-- A check reports a member of a matched class as removed, once, iff it was visible and the new class
does not expose it in any way. -/
theorem check_removals (context : RuleContext) (hs : context.oldView.primary.Built)
    (ht : context.newView.primary.Built) {severities : SeverityTable}
    (hmethod : severities .removedMethod ≠ .hidden) (hfield : severities .removedField ≠ .hidden) :
    (check context.oldView context.newView context.filter severities).issues =
        (context.reports severities).map (Finding.issue severities) ∧
      ∀ c d, Event.matched c d ∈
          context.oldView.primary.compare context.newView.primary context.filter →
        c.asClass?.isSome → RemovalsDecided context (context.reports severities) c d := by
  refine ⟨check_issues context.oldView context.newView context.filter severities, ?_⟩
  intro c d hcd hc
  have hmatched := ClassesMatched.of_mem_compare hs.wellFormed ht.wellFormed hcd hc
  refine ⟨fun o ho => ?_, fun o ho => ?_⟩
  · obtain ⟨slot, hslot, ho⟩ := mem_constructors_append_methods.mp ho
    rw [context.verdicts_reports hmethod]
    exact verdicts_of_method hs.wellFormed ht.wellFormed hslot hmatched ho
  · rw [Decl.fields_eq] at ho
    rw [context.verdicts_reports hfield]
    exact verdicts_of_field hs.wellFormed ht.wellFormed hmatched ho

/-- A surface without the constructor that it had, and with a method that has its name. -/
def RuleContext.constructorGone : RuleContext :=
  { oldView := ((Recipe.ofClass [.published ""] []).build 1 "old").alone
    newView := ((Recipe.ofClass [] [.published "C"]).build 2 "new").alone
    filter := .published }

theorem check_removals_constructorGone :
    let context := RuleContext.constructorGone
    let outcome := check context.oldView context.newView context.filter .standard
    outcome.issues.map Issue.kind = [.removedMethod, .addedMethod] ∧
      outcome.issues = (context.reports .standard).map (Finding.issue .standard) ∧
      ∀ c d, Event.matched c d ∈
          context.oldView.primary.compare context.newView.primary context.filter →
        c.asClass?.isSome → RemovalsDecided context (context.reports .standard) c d := by
  refine ⟨by decide +kernel, ?_⟩
  exact check_removals .constructorGone ⟨_, _, _, rfl⟩ ⟨_, _, _, rfl⟩ (by decide) (by decide)

end ApiSurface
