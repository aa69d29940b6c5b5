import DatasetAudit.Proofs.Json.Free

/-! Findings are restored from their JSON values, if their figures are scalars and arrays of
scalars. -/

namespace DatasetAudit

open Json

theorem FindingId.restores (id : FindingId) : Restores (oneOf? all name) (.string id.name) id :=
  restores_oneOf (by cases id <;> rfl)

theorem Severity.restores (severity : Severity) :
    Restores (oneOf? descending name) (.string severity.name) severity :=
  restores_oneOf (by cases severity <;> rfl)

theorem Split.restores (split : Split) : Restores (oneOf? all name) (.string split.name) split :=
  restores_oneOf (by cases split <;> rfl)

theorem Finding.restores {finding : Finding} (h : ∀ metrics ∈ finding.metrics, metrics.IsFigures) :
    Restores ofJson? finding.toJson finding := by
  refine restores_record rfl (by decide) ?_
  apply Builds.required (FindingId.restores finding.id)
  apply Builds.required (Severity.restores finding.severity)
  apply Builds.required (restores_string finding.message)
  apply Builds.required (restores_string finding.fingerprint)
  apply Builds.optional fun split _ => Split.restores split
  apply Builds.optional fun image _ => restores_string image
  apply Builds.optional fun label _ => restores_string label
  apply Builds.optional fun classId _ => restores_int64 classId
  apply Builds.optional_self fun metrics hMetrics => restores_free (h metrics hMetrics)
  apply Builds.optional fun action _ => restores_string action
  exact .nil

/-- Whether the figures of every finding are scalars and arrays of scalars. -/
def Flags.Writable (flags : Flags) : Prop :=
  ∀ finding ∈ flags.findings, ∀ metrics ∈ finding.metrics, metrics.IsFigures

theorem Flags.restores {flags : Flags} (h : flags.Writable) :
    Restores ofJson? flags.toJson flags := by
  refine restores_object rfl (by decide) ?_
  apply Builds.required (restores_string flags.schemaVersion)
  apply Builds.required (restores_array fun finding hFinding => Finding.restores (h finding hFinding))
  exact .nil

end DatasetAudit
