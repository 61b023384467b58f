import ApiSurface.Proofs.AlignedEvents
import ApiSurface.Proofs.Recording

/-! # Checks that match peers only

Where a comparison matches peers only, and peers are to the rules one declaration whose types are written in
another way, a check can speak of one thing only: of the types that are not kept. -/
namespace ApiSurface

open Comparison

variable {old new : View}

namespace Surface.Peers

variable {s t : Surface} {d d' : Decl} (hd : s.Peers t d d') (h : s.Aligned t)

include hd h

/-- A declaration is final in effect if its peer is. -/
theorem isEffectivelyFinal : Rules.isEffectivelyFinal d' = Rules.isEffectivelyFinal d := by
  unfold Rules.isEffectivelyFinal
  rw [hd.modifiers h, any_of_rel (hd.containingClass? h) fun c c' hc => by rw [hc.modifiers h]]

/-- What holds of the main types of peers holds of their superclasses. -/
theorem superclass?_rel {R : TypeRef → TypeRef → Prop} (hmain : Option.Rel R d.mainType? d'.mainType?) :
    Option.Rel R d.superclass? d'.superclass? := by
  have hclass : d'.asClass?.isSome = d.asClass?.isSome := by
    have hsome := congrArg Option.isSome (hd.asClass? h)
    rwa [Option.isSome_map, Option.isSome_map] at hsome
  rw [Decl.superclass?_eq_mainType?, Decl.superclass?_eq_mainType?, hclass]
  split
  · exact hmain
  · exact .none

end Surface.Peers

def Event.keepsType : Event → Bool
  | .matched d d' => Rules.keepsType d d'
  | .removed .. | .added _ => true

/-- To the rules, peers are one declaration whose types are written in another way. -/
def View.Rewrites (old new : View) : Prop :=
  ∀ d d', old.primary.Peers new.primary d d' →
    Rules.Rewritten { oldView := old, newView := new, filter := .all } d d'

section

variable (hrewrites : old.Rewrites new)
  (hpeers : ∀ e ∈ old.primary.compare new.primary .all, e.OfPeers old.primary new.primary)

include hrewrites hpeers

/-- The issues are about the types that are not kept, one about each. -/
theorem map_kind_issues_of_peers (severities : SeverityTable) :
    (check old new .all severities).issues.map Issue.kind =
      ((old.primary.compare new.primary .all).flatMap fun e =>
        if e.keepsType then [] else [IssueKind.changedType]).filter fun kind =>
          severities kind != .hidden := by
  have hkind : Issue.kind ∘ Finding.issue severities = Finding.kind := rfl
  have hrecorded : Finding.isRecorded severities =
      (fun kind => severities kind != .hidden) ∘ Finding.kind := rfl
  rw [check_issues, List.map_map, hkind, RuleContext.reports, hrecorded, ← List.filter_map,
    RuleContext.allFindings, List.map_flatMap]
  congr 1
  refine List.flatMap_congr fun e he => ?_
  have hpeer := hpeers e he
  cases e with
  | matched d d' => exact Rules.Matched.findings_map_kind (hrewrites d d' hpeer)
  | removed | added => exact hpeer.elim

/-- Nothing is reported but types that are not kept, and nothing at all if no type is. -/
theorem changedType_of_peers (severities : SeverityTable) :
    let issues := (check old new .all severities).issues
    (∀ issue ∈ issues, issue.kind = .changedType) ∧
      (issues = [] ↔ severities .changedType = .hidden ∨
        ∀ e ∈ old.primary.compare new.primary .all, e.keepsType = true) := by
  have hkinds := map_kind_issues_of_peers hrewrites hpeers severities
  have hmem : ∀ kind, kind ∈ (old.primary.compare new.primary .all).flatMap (fun e =>
      if e.keepsType then [] else [IssueKind.changedType]) ↔
        kind = .changedType ∧ ∃ e ∈ old.primary.compare new.primary .all, e.keepsType = false := by
    intro kind
    rw [List.mem_flatMap, ← exists_and_left]
    refine exists_congr fun e => ?_
    cases e.keepsType <;> simp [and_comm]
  refine ⟨fun issue hissue => ?_, ?_⟩
  · have hkind := List.mem_map_of_mem (f := Issue.kind) hissue
    rw [hkinds, List.mem_filter, hmem] at hkind
    exact hkind.1.1
  · rw [← List.map_eq_nil_iff, hkinds, List.filter_eq_nil_iff]
    constructor
    · intro hnone
      refine or_iff_not_imp_left.mpr fun hshown e he => ?_
      by_contra hkeeps
      exact hnone .changedType ((hmem _).mpr ⟨rfl, e, he, eq_false_of_ne_true hkeeps⟩)
        (bne_iff_ne.mpr hshown)
    · intro hall kind hkind
      obtain ⟨rfl, e, he, hkeeps⟩ := (hmem kind).mp hkind
      rw [hall.resolve_right fun hall => Bool.noConfusion ((hall e he).symm.trans hkeeps)]
      decide

end

end ApiSurface
