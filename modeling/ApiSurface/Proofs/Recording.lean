import ApiSurface.Check

/-! # What a check records

Severities decide last. The issues of a check are its findings without those of hidden kinds, in the
order in which they were found, and the check fails iff one of them is an error. -/
namespace ApiSurface

def Finding.issue (severities : SeverityTable) (finding : Finding) : Issue :=
  { kind := finding.kind
    severity := severities finding.kind
    subject := finding.subject.describe
    message := finding.message }

def Finding.isRecorded (severities : SeverityTable) (finding : Finding) : Bool :=
  severities finding.kind != .hidden

def RuleContext.reports (context : RuleContext) (severities : SeverityTable) : List Finding :=
  context.allFindings.filter (Finding.isRecorded severities)

namespace Tally

variable {severities : SeverityTable}

theorem record_of_isRecorded (tally : Tally) {finding : Finding}
    (h : finding.isRecorded severities = true) : tally.record severities finding =
      { issues := tally.issues ++ [finding.issue severities]
        foundProblems := tally.foundProblems || severities finding.kind == .error } := by
  unfold Finding.isRecorded at h
  unfold record Finding.issue
  cases hs : severities finding.kind with
  | hidden => rw [hs] at h; cases h
  | _ => rfl

theorem record_of_hidden (tally : Tally) {finding : Finding}
    (h : finding.isRecorded severities = false) : tally.record severities finding = tally := by
  unfold Finding.isRecorded at h
  unfold record
  cases hs : severities finding.kind with
  | hidden => rfl
  | _ => rw [hs] at h; cases h

theorem foldl_record (tally : Tally) (findings : List Finding) :
    findings.foldl (record severities) tally =
      { issues := tally.issues ++
          (findings.filter (Finding.isRecorded severities)).map (Finding.issue severities)
        foundProblems := tally.foundProblems ||
          findings.any fun finding => severities finding.kind == .error } := by
  induction findings generalizing tally with
  | nil => simp
  | cons finding rest ih =>
    rw [List.foldl_cons, ih]
    cases h : finding.isRecorded severities with
    | true =>
      rw [record_of_isRecorded tally h, List.filter_cons_of_pos h]
      simp [Bool.or_assoc]
    | false =>
      have hsilent : (severities finding.kind == .error) = false := by
        unfold Finding.isRecorded at h
        rw [bne_eq_false_iff_eq] at h
        rw [h]
        rfl
      rw [record_of_hidden tally h, List.filter_cons_of_neg (by rw [h]; exact Bool.false_ne_true)]
      simp [hsilent]

end Tally

/-- The issues of a check are the recorded findings, in their order. -/
theorem check_issues (old new : View) (filter : Filter) (severities : SeverityTable) :
    (check old new filter severities).issues =
      ({ oldView := old, newView := new, filter : RuleContext }.reports severities).map
        (Finding.issue severities) := by
  unfold check RuleContext.reports
  rw [Tally.foldl_record]
  rfl

theorem check_foundProblems (old new : View) (filter : Filter) (severities : SeverityTable) :
    (check old new filter severities).foundProblems =
      { oldView := old, newView := new, filter : RuleContext }.allFindings.any fun finding =>
        severities finding.kind == .error := by
  unfold check
  rw [Tally.foldl_record]
  rfl

/-- The table under which nothing is hidden and everything counts. -/
def SeverityTable.strict : SeverityTable := fun _ => .error

/-- The issue with the severity that a table gives its kind. -/
def Issue.regraded (severities : SeverityTable) (issue : Issue) : Issue :=
  { issue with severity := severities issue.kind }

/-- The issues of which a table leaves a trace, with the severities that it gives them. -/
def regrade (severities : SeverityTable) (issues : List Issue) : List Issue :=
  (issues.filter fun issue => severities issue.kind != .hidden).map (Issue.regraded severities)

namespace Tally

/-- How the tally of a run under a table is related to that of the same run under the strict one: it
holds the same issues regraded, and it has found a problem iff one of these is an error. -/
structure Regrades (severities : SeverityTable) (strict tally : Tally) : Prop where
  issues : tally.issues = regrade severities strict.issues
  foundProblems : tally.foundProblems = true ↔ ∃ issue ∈ tally.issues, issue.severity = .error

variable {severities : SeverityTable} {strict tally : Tally}

theorem regrades_empty : Regrades severities {} {} :=
  ⟨rfl, by simp⟩

/-- One finding is recorded in both runs, or it is hidden in the one and regrading drops it from the
other. -/
theorem Regrades.record (h : Regrades severities strict tally) (finding : Finding) :
    Regrades severities (strict.record .strict finding) (tally.record severities finding) := by
  have hsplit : regrade severities (strict.record .strict finding).issues =
      regrade severities strict.issues ++ regrade severities [finding.issue .strict] := by
    unfold regrade
    rw [← List.map_append, ← List.filter_append]
    rfl
  cases hrecorded : finding.isRecorded severities with
  | true =>
    have hkept : regrade severities [finding.issue .strict] = [finding.issue severities] := by
      have hkind : (severities (finding.issue .strict).kind != .hidden) = true := hrecorded
      rw [regrade, List.filter_cons, if_pos hkind]
      rfl
    rw [record_of_isRecorded tally hrecorded]
    refine ⟨by rw [hsplit, hkept, h.issues], ?_⟩
    have hlast : (finding.issue severities).severity = severities finding.kind := rfl
    simp only [Bool.or_eq_true, h.foundProblems, List.mem_append, List.mem_singleton, or_and_right,
      exists_or, exists_eq_left, hlast, beq_iff_eq]
  | false =>
    have hdropped : regrade severities [finding.issue .strict] = [] := by
      have hkind : (severities (finding.issue .strict).kind != .hidden) = false := hrecorded
      rw [regrade, List.filter_cons, if_neg (ne_true_of_eq_false hkind)]
      rfl
    rw [record_of_hidden tally hrecorded]
    exact ⟨by rw [hsplit, hdropped, List.append_nil, h.issues], h.foundProblems⟩

theorem Regrades.foldl (h : Regrades severities strict tally) (findings : List Finding) :
    Regrades severities (findings.foldl (Tally.record .strict) strict)
      (findings.foldl (Tally.record severities) tally) := by
  induction findings generalizing strict tally with
  | nil => exact h
  | cons finding rest ih => exact ih (h.record finding)

end Tally

/-- Severities never influence what is found. The issues under a table are those under the strict
table, in the same order and saying the same, without the ones whose kinds the table hides and with
the severities that it gives the others. The check fails iff one of them is an error. -/
theorem check_regraded (old new : View) (filter : Filter) (severities : SeverityTable) :
    (check old new filter severities).issues =
        ((check old new filter fun _ => .error).issues.filter fun issue =>
          severities issue.kind != .hidden).map
            (fun issue => { issue with severity := severities issue.kind }) ∧
      ((check old new filter severities).foundProblems = true ↔
        ∃ issue ∈ (check old new filter severities).issues, issue.severity = .error) := by
  let context : RuleContext := { oldView := old, newView := new, filter }
  have hstart : Tally.Regrades severities {} {} := Tally.regrades_empty
  have hrun := hstart.foldl context.allFindings
  exact ⟨hrun.issues, hrun.foundProblems⟩

end ApiSurface
