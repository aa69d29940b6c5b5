import DatasetAudit.Report.Summary
/-!
The report of a run, made of the outcomes of its checks. Only severities decide whether a run
fails: neither the order of the checks nor a check that failed does.
-/

namespace DatasetAudit

/-- Whether a finding is at or above a severity. -/
def gate (findings : List Finding) (failOn : Severity) : Bool :=
  findings.any fun finding => failOn ≤ finding.severity

/-- The findings of a run and its summary. -/
structure Report where
  flags : Flags
  summary : Summary

namespace Report

/-- The exit code of a program whose run ended in this report. -/
def exitCode (report : Report) : Nat :=
  if report.summary.totals.buildFailed then 1 else 0

/-- The counts of a split of an index. -/
def splitCounts (index : Index) (info : SplitInfo) : SplitCounts :=
  let labeled := (index.entriesIn info.split).countP fun entry => !entry.labels.isMissing
  ⟨info.imageCount, labeled, info.imageCount - labeled⟩

/-- The last item of a list that satisfies a condition. -/
def findLast? {α : Type} (condition : α → Bool) (items : List α) : Option α :=
  items.reverse.find? condition

/-- The dataset of an index. Of two records of one split the last counts. -/
def datasetInfo (index : Index) : DatasetInfo where
  root := index.datasetRoot
  dataYaml := index.dataYaml
  splits split :=
    (findLast? (fun info => info.split = split) index.splits).map (splitCounts index)
  classes := ⟨index.classCount, index.classNames⟩

/-- How a check ended. -/
def checkSummary (outcome : CheckOutcome) : CheckSummary :=
  ⟨outcome.status, .ofFindings outcome.findings, outcome.reason⟩

/-- The names of the checks that failed, in the order of names. -/
def checkErrors (outcomes : List CheckOutcome) : List String :=
  sortByKey id ((outcomes.filter fun outcome => outcome.status = .error).map (·.kind.name))

/-- The totals of a run. -/
def totals (config : Config) (outcomes : List CheckOutcome) (findings : List Finding) : Totals where
  findings := findings.length
  bySeverity := .ofFindings findings
  failThreshold := config.failOn
  buildFailed := gate findings config.failOn
  checkErrors := checkErrors outcomes

/-- The report of a run. Of two outcomes of one check the last counts. -/
def ofOutcomes (index : Index) (config : Config) (outcomes : List CheckOutcome) (run : RunInfo) :
    Report :=
  let findings := Finding.sort (outcomes.flatMap (·.findings))
  { flags := ⟨schemaVersion, findings⟩
    summary :=
      { schemaVersion, run
        dataset := datasetInfo index
        checks := fun kind =>
          (findLast? (fun outcome => outcome.kind = kind) outcomes).map checkSummary
        totals := totals config outcomes findings } }

end Report

end DatasetAudit
