import DatasetAudit.Check.Outcome
import DatasetAudit.Report.Counts
/-!
What a run leaves behind about its findings: the list of them, and the summary that says what was
looked at, how every check ended and whether the run passed.
-/

namespace DatasetAudit

/-- All findings of a run, in the order of presentation. -/
structure Flags where
  schemaVersion : String
  findings : List Finding

/-- The settings of a run that its summary records. -/
structure RunConfig where
  failOn : Severity
  enabledChecks : List String
deriving DecidableEq, Repr

/-- A run: its name, its times, and its settings. -/
structure RunInfo where
  runId : String
  toolVersion : String
  startedAt : String
  finishedAt : String
  durationSec : Float
  config : RunConfig

/-- The record of a run under a configuration. -/
def RunInfo.ofConfig (runId startedAt finishedAt : String) (durationSec : Float)
    (config : Config) : RunInfo :=
  { runId, startedAt, finishedAt, durationSec
    toolVersion := DatasetAudit.toolVersion
    config := ⟨config.failOn, config.enabledChecks.map CheckKind.name⟩ }

/-- How many images a split has, and how many of them have a label file. -/
structure SplitCounts where
  images : Nat
  labeled : Nat
  unlabeled : Nat
deriving DecidableEq, Repr

/-- The classes of a dataset. -/
structure ClassesInfo where
  count : Nat
  names : List String
deriving DecidableEq, Repr

/-- The dataset of a run. A split that it does not have has no counts. -/
structure DatasetInfo where
  root : String
  dataYaml : Option String
  splits : Split → Option SplitCounts
  classes : ClassesInfo

/-- How a check ended, and how many findings it has. -/
structure CheckSummary where
  status : CheckStatus
  counts : SeverityCounts
  reason : Option String
deriving DecidableEq, Repr

/-- The result of a run: its findings counted, and whether they fail it. -/
structure Totals where
  findings : Nat
  bySeverity : SeverityCounts
  failThreshold : Severity
  buildFailed : Bool
  checkErrors : List String
deriving DecidableEq, Repr

/-- The summary of a run. A check that was not in the run has no summary. -/
structure Summary where
  schemaVersion : String
  run : RunInfo
  dataset : DatasetInfo
  checks : CheckKind → Option CheckSummary
  totals : Totals

end DatasetAudit
