import ApiSurface.Proofs.LostClasses

/-! # Stubs that come and go

A stub is in a surface for others to refer to it, so it does not belong to the surface itself. The rule on
removals drops stubs. The rule on additions does not ask: an added stub is announced like anything else that
is added, and a table of severities can hide the announcement only with all others of its kind. -/
namespace ApiSurface

open Surface

/-- Whether an issue of this kind is about something that came or went. -/
def IssueKind.isPresence (kind : IssueKind) : Bool := kind.isAddition || kind.isRemoval

namespace RuleContext

open Rules.Presence

variable {context : RuleContext} {severities : SeverityTable} {d : Decl} {f : Finding}

/-- A declaration whose addition is due to be reported. -/
structure Announces (context : RuleContext) (severities : SeverityTable) (d : Decl) : Prop where
  /-- The comparison has no older version of it. -/
  isAdded : Event.added d ∈ context.oldView.primary.compare context.newView.primary context.filter
  /-- It was not hidden when it was declared. -/
  shown : d.flags.declaredHidden = false
  /-- Its addition counts, as an issue of a kind that is not hidden. -/
  counts : ∃ kind, addedKind context d = some kind ∧ severities kind ≠ .hidden

theorem isRecorded_iff : f.isRecorded severities = true ↔ severities f.kind ≠ .hidden := bne_iff_ne

/-- The finding on an added declaration. -/
theorem mem_added_iff : f ∈ added context d ↔ d.flags.declaredHidden = false ∧
    ∃ kind, addedKind context d = some kind ∧ f = ⟨kind, d, "Added " ++ d.describe⟩ := by
  unfold added
  cases d.flags.declaredHidden with
  | true => simp
  | false => cases addedKind context d <;> simp

/-- An addition is reported iff it is due, whether its subject is a stub or not. -/
theorem exists_addition_iff :
    (∃ f ∈ context.reports severities, f.kind.isAddition = true ∧ f.subject = d) ↔
      context.Announces severities d := by
  constructor
  · rintro ⟨f, hf, haddition, rfl⟩
    obtain ⟨hf, hrecorded⟩ := List.mem_filter.mp hf
    obtain ⟨e, he, hfe⟩ := List.mem_flatMap.mp hf
    obtain rfl := context.eq_added_of_isAddition hfe haddition
    obtain ⟨hshown, kind, hkind, heq⟩ := mem_added_iff.mp hfe
    have hsame : f.kind = kind := congrArg Finding.kind heq
    exact ⟨he, hshown, kind, hkind, hsame ▸ isRecorded_iff.mp hrecorded⟩
  · rintro ⟨he, hshown, kind, hkind, hsevere⟩
    have hmem : (⟨kind, d, "Added " ++ d.describe⟩ : Finding) ∈ added context d :=
      mem_added_iff.mpr ⟨hshown, kind, hkind, rfl⟩
    refine ⟨_, List.mem_filter.mpr ⟨List.mem_flatMap.mpr ⟨_, he, hmem⟩, ?_⟩, (mem_added hmem).2, rfl⟩
    exact isRecorded_iff.mpr hsevere

/-- What is said to be gone is no stub. -/
theorem isEmitted_of_isRemoval (hf : f ∈ context.reports severities) (hremoval : f.kind.isRemoval = true) :
    f.subject.isEmitted = true := by
  obtain ⟨e, _, hfe⟩ := List.mem_flatMap.mp (List.mem_of_mem_filter hf)
  obtain ⟨place, rfl⟩ := exists_removed_of_isRemoval hfe hremoval
  have hseen := (mem_removed hfe).2.1
  exact (Bool.and_eq_true_iff.mp (Bool.and_eq_true_iff.mp hseen).1).1

end RuleContext

/-- What a check reports of stubs, for any views, filter and severities. A stub is never said to be gone. A
stub is said to have come if it is not in the old surface, was not hidden when it was declared, and an
addition like it counts. So nothing is reported of the presence of stubs iff no stub is added like that. -/
theorem check_stubs (old new : View) (filter : Filter) (severities : SeverityTable) :
    let context : RuleContext := { oldView := old, newView := new, filter }
    (check old new filter severities).issues =
        (context.reports severities).map (Finding.issue severities) ∧
      (∀ f ∈ context.reports severities, f.kind.isRemoval = true → f.subject.isEmitted = true) ∧
      (∀ d, (∃ f ∈ context.reports severities, f.kind.isAddition = true ∧ f.subject = d) ↔
        context.Announces severities d) ∧
      ((∀ f ∈ context.reports severities, f.kind.isPresence = true → f.subject.isEmitted = true) ↔
        ∀ d, context.Announces severities d → d.isEmitted = true) := by
  intro context
  refine ⟨check_issues old new filter severities, fun f hf => RuleContext.isEmitted_of_isRemoval hf,
    fun d => RuleContext.exists_addition_iff, fun h d hd => ?_, fun h f hf hpresence => ?_⟩
  · obtain ⟨f, hf, haddition, rfl⟩ := RuleContext.exists_addition_iff.mpr hd
    exact h f hf (Bool.or_eq_true_iff.mpr (.inl haddition))
  · rcases Bool.or_eq_true_iff.mp hpresence with haddition | hremoval
    · exact h f.subject (RuleContext.exists_addition_iff.mp ⟨f, hf, haddition, rfl⟩)
    · exact RuleContext.isEmitted_of_isRemoval hf hremoval

def Recipe.anchored : Recipe :=
  { calls := [.packageSpec { name := "p", classes := [
      { name := "p.Anchor", modifiers := .ofVisibility .publicAccess, isStub := true }] }] }

/-- A stub that comes is reported, and one that goes is not. -/
theorem check_stubs_anchored :
    let bare := (Recipe.barePackage.build 1 "bare").alone
    let anchored := (Recipe.anchored.build 2 "anchored").alone
    let context : RuleContext := { oldView := bare, newView := anchored, filter := .published }
    (check bare anchored .published .standard).issues =
        [⟨.addedClass, .error, "class p.Anchor", "Added class p.Anchor"⟩] ∧
      (context.reports .standard).map (fun f => (f.kind, f.subject.isEmitted)) = [(.addedClass, false)] ∧
      (check anchored bare .published .standard).issues = [] := by
  decide +kernel

end ApiSurface
