import DatasetAudit.Proofs.Artifact.Finding

/-! A summary is restored from its JSON value, if its counts fit into sixty-four bits and its
duration is finite. -/

namespace DatasetAudit

open Json

theorem CheckStatus.restores (status : CheckStatus) :
    Restores (oneOf? all name) (.string status.name) status :=
  restores_oneOf (by cases status <;> rfl)

/-- Whether every count fits into sixty-four bits. -/
def SeverityCounts.Fits (counts : SeverityCounts) : Prop :=
  ∀ severity, counts.get severity < UInt64.size

theorem SeverityCounts.restores {counts : SeverityCounts} (h : counts.Fits) :
    Restores ofJson? counts.toJson counts := by
  refine restores_object rfl (by decide) ?_
  apply Builds.required (restores_count (h .critical))
  apply Builds.required (restores_count (h .high))
  apply Builds.required (restores_count (h .medium))
  apply Builds.required (restores_count (h .low))
  exact .nil

theorem RunConfig.restores (config : RunConfig) : Restores ofJson? config.toJson config := by
  refine restores_object rfl (by decide) ?_
  apply Builds.required (Severity.restores config.failOn)
  apply Builds.required (restores_texts config.enabledChecks)
  exact .nil

theorem RunInfo.restores {run : RunInfo} (h : run.durationSec.isFinite = true) :
    Restores ofJson? run.toJson run := by
  refine restores_object rfl (by decide) ?_
  apply Builds.required (restores_string run.runId)
  apply Builds.required (restores_string run.toolVersion)
  apply Builds.required (restores_string run.startedAt)
  apply Builds.required (restores_string run.finishedAt)
  apply Builds.required (restores_float h)
  apply Builds.required (RunConfig.restores run.config)
  exact .nil

structure SplitCounts.Fits (counts : SplitCounts) : Prop where
  images : counts.images < UInt64.size
  labeled : counts.labeled < UInt64.size
  unlabeled : counts.unlabeled < UInt64.size

theorem SplitCounts.restores {counts : SplitCounts} (h : counts.Fits) :
    Restores ofJson? counts.toJson counts := by
  refine restores_object rfl (by decide) ?_
  apply Builds.required (restores_count h.images)
  apply Builds.required (restores_count h.labeled)
  apply Builds.required (restores_count h.unlabeled)
  exact .nil

theorem ClassesInfo.restores {classes : ClassesInfo} (h : classes.count < UInt64.size) :
    Restores ofJson? classes.toJson classes := by
  refine restores_object rfl (by decide) ?_
  apply Builds.required (restores_count h)
  apply Builds.required (restores_texts classes.names)
  exact .nil

structure DatasetInfo.Fits (dataset : DatasetInfo) : Prop where
  splits : ∀ split, ∀ counts ∈ dataset.splits split, counts.Fits
  classes : dataset.classes.count < UInt64.size

theorem DatasetInfo.restores {dataset : DatasetInfo} (h : dataset.Fits) :
    Restores ofJson? dataset.toJson dataset := by
  have hSplits : Restores (readTable? Split.ofName? SplitCounts.ofJson?)
      (ofTable Split.all Split.name SplitCounts.toJson dataset.splits) dataset.splits :=
    restores_table (fun split => by cases split <;> decide)
      (fun split => by cases split <;> rfl)
      (fun split counts hCounts => SplitCounts.restores (h.splits split counts hCounts))
  refine restores_record rfl (by decide) ?_
  apply Builds.required (restores_string dataset.root)
  apply Builds.optional fun dataYaml _ => restores_string dataYaml
  apply Builds.required hSplits
  apply Builds.required (ClassesInfo.restores h.classes)
  exact .nil

theorem CheckSummary.restores {check : CheckSummary} (h : check.counts.Fits) :
    Restores ofJson? check.toJson check := by
  refine restores_record rfl (by decide) ?_
  apply Builds.required (CheckStatus.restores check.status)
  apply Builds.required (SeverityCounts.restores h)
  apply Builds.optional fun reason _ => restores_string reason
  exact .nil

structure Totals.Fits (totals : Totals) : Prop where
  findings : totals.findings < UInt64.size
  bySeverity : totals.bySeverity.Fits

theorem Totals.restores {totals : Totals} (h : totals.Fits) :
    Restores ofJson? totals.toJson totals := by
  refine restores_object rfl (by decide) ?_
  apply Builds.required (restores_count h.findings)
  apply Builds.required (SeverityCounts.restores h.bySeverity)
  apply Builds.required (Severity.restores totals.failThreshold)
  apply Builds.required (restores_bool totals.buildFailed)
  apply Builds.required (restores_texts totals.checkErrors)
  exact .nil

/-- Whether a summary has a finite duration, and counts that fit into sixty-four bits. -/
structure Summary.Writable (summary : Summary) : Prop where
  duration : summary.run.durationSec.isFinite = true
  dataset : summary.dataset.Fits
  checks : ∀ kind, ∀ check ∈ summary.checks kind, check.counts.Fits
  totals : summary.totals.Fits

theorem Summary.restores {summary : Summary} (h : summary.Writable) :
    Restores ofJson? summary.toJson summary := by
  have hChecks : Restores (readTable? CheckKind.ofName? CheckSummary.ofJson?)
      (ofTable CheckKind.all CheckKind.name CheckSummary.toJson summary.checks) summary.checks :=
    restores_table (fun kind => by cases kind <;> decide)
      (fun kind => by cases kind <;> rfl)
      (fun kind check hCheck => CheckSummary.restores (h.checks kind check hCheck))
  refine restores_object rfl (by decide) ?_
  apply Builds.required (restores_string summary.schemaVersion)
  apply Builds.required (RunInfo.restores h.duration)
  apply Builds.required (DatasetInfo.restores h.dataset)
  apply Builds.required hChecks
  apply Builds.required (Totals.restores h.totals)
  exact .nil

end DatasetAudit
