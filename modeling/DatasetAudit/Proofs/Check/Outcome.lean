import DatasetAudit.Check.Outcome

/-! What one check finds in a run, read off the outcomes of all checks. -/

namespace DatasetAudit

/-- The findings of one check among the outcomes of a run. -/
def findingsOf (kind : CheckKind) (outcomes : List CheckOutcome) : List Finding :=
  (outcomes.filter fun outcome => outcome.kind = kind).flatMap (·.findings)

section Outcomes

variable {index : Index} {config : Config} {clusters : ClusterSet} {kind : CheckKind}

theorem CheckOutcome.kind_ofCheck : (ofCheck index config clusters kind).kind = kind := by
  unfold ofCheck
  split
  · split
    · rfl
    · rfl
  · rfl

/-- Every check has one outcome in a run. -/
theorem filter_runChecks (index : Index) (config : Config) (kind : CheckKind) :
    ((runChecks index config).filter fun outcome => outcome.kind = kind) =
      [CheckOutcome.ofCheck index config (ClusterSet.build index config) kind] := by
  have hOnce : (CheckKind.all.filter fun other => other = kind) = [kind] := by
    cases kind <;> rfl
  rw [runChecks, List.filter_map]
  simp only [Function.comp_def, CheckOutcome.kind_ofCheck, hOnce, List.map_cons, List.map_nil]

/-- The findings of a check are those of its one outcome. -/
theorem findingsOf_runChecks (index : Index) (config : Config) (kind : CheckKind) :
    findingsOf kind (runChecks index config) =
      (CheckOutcome.ofCheck index config (ClusterSet.build index config) kind).findings := by
  rw [findingsOf, filter_runChecks, List.flatMap_singleton]

theorem CheckOutcome.findings_ofCheck {findings : List Finding}
    (hEnabled : config.isEnabled kind = true)
    (hFindings : kind.evaluate index config clusters = .ok findings) :
    (ofCheck index config clusters kind).findings = findings := by
  rw [ofCheck, if_pos hEnabled, hFindings]

end Outcomes

end DatasetAudit
