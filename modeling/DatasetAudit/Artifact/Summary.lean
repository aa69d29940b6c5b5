import DatasetAudit.Json.Parser
import DatasetAudit.Json.Record
import DatasetAudit.Report.Summary
/-!
The summary of a run in JSON. The splits of the dataset and the checks are tables by name, in order
when written and in any order when read.
-/

namespace DatasetAudit

/-- A table as JSON: the values of those keys that have one, in the order of the keys. -/
def Json.ofTable {κ α : Type} (keys : List κ) (name : κ → String) (toJson : α → Json)
    (table : κ → Option α) : Json :=
  .object (keys.filterMap fun key => (table key).map fun value => (name key, toJson value))

/-- The table that a JSON value gives; of a key given more than once the last value counts. -/
def Json.readTable? {κ α : Type} [DecidableEq κ] (ofName? : String → Option κ)
    (read : Json → Option α) (value : Json) : Option (κ → Option α) :=
  (Json.table? ofName? read value).map fun members key => members.reverse.lookup key

namespace SeverityCounts

/-- Counts as JSON. -/
def toJson (counts : SeverityCounts) : Json :=
  .object
    [("critical", .ofNat counts.critical), ("high", .ofNat counts.high),
      ("medium", .ofNat counts.medium), ("low", .ofNat counts.low)]

/-- The counts that a JSON value gives. -/
def ofJson? (value : Json) : Option SeverityCounts := do
  let fields ← Json.fields? ["critical", "high", "medium", "low"] value
  let critical ← fields.required? "critical" Json.count?
  let high ← fields.required? "high" Json.count?
  let medium ← fields.required? "medium" Json.count?
  let low ← fields.required? "low" Json.count?
  some { critical, high, medium, low }

end SeverityCounts

namespace RunConfig

/-- The settings of a run as JSON. -/
def toJson (config : RunConfig) : Json :=
  .object
    [("fail_on", .string config.failOn.name), ("enabled_checks", .ofTexts config.enabledChecks)]

/-- The settings that a JSON value gives. -/
def ofJson? (value : Json) : Option RunConfig := do
  let fields ← Json.fields? ["fail_on", "enabled_checks"] value
  let failOn ← fields.required? "fail_on" (Json.oneOf? Severity.descending Severity.name)
  let enabledChecks ← fields.required? "enabled_checks" (Json.array? Json.string?)
  some { failOn, enabledChecks }

end RunConfig

namespace RunInfo

/-- A run as JSON. -/
def toJson (run : RunInfo) : Json :=
  .object
    [("run_id", .string run.runId), ("tool_version", .string run.toolVersion),
      ("started_at", .string run.startedAt), ("finished_at", .string run.finishedAt),
      ("duration_sec", .float run.durationSec), ("config", run.config.toJson)]

/-- The names of a run's fields. -/
def fieldNames : List String :=
  ["run_id", "tool_version", "started_at", "finished_at", "duration_sec", "config"]

/-- The run that a JSON value gives. -/
def ofJson? (value : Json) : Option RunInfo := do
  let fields ← Json.fields? fieldNames value
  let runId ← fields.required? "run_id" Json.string?
  let toolVersion ← fields.required? "tool_version" Json.string?
  let startedAt ← fields.required? "started_at" Json.string?
  let finishedAt ← fields.required? "finished_at" Json.string?
  let durationSec ← fields.required? "duration_sec" Json.float?
  let config ← fields.required? "config" RunConfig.ofJson?
  some { runId, toolVersion, startedAt, finishedAt, durationSec, config }

end RunInfo

namespace SplitCounts

/-- The counts of a split as JSON. -/
def toJson (counts : SplitCounts) : Json :=
  .object
    [("images", .ofNat counts.images), ("labeled", .ofNat counts.labeled),
      ("unlabeled", .ofNat counts.unlabeled)]

/-- The counts that a JSON value gives. -/
def ofJson? (value : Json) : Option SplitCounts := do
  let fields ← Json.fields? ["images", "labeled", "unlabeled"] value
  let images ← fields.required? "images" Json.count?
  let labeled ← fields.required? "labeled" Json.count?
  let unlabeled ← fields.required? "unlabeled" Json.count?
  some { images, labeled, unlabeled }

end SplitCounts

namespace ClassesInfo

/-- The classes as JSON. -/
def toJson (classes : ClassesInfo) : Json :=
  .object [("count", .ofNat classes.count), ("names", .ofTexts classes.names)]

/-- The classes that a JSON value gives. -/
def ofJson? (value : Json) : Option ClassesInfo := do
  let fields ← Json.fields? ["count", "names"] value
  let count ← fields.required? "count" Json.count?
  let names ← fields.required? "names" (Json.array? Json.string?)
  some { count, names }

end ClassesInfo

namespace DatasetInfo

/-- A dataset as JSON. -/
def toJson (dataset : DatasetInfo) : Json :=
  Json.record
    [("root", some (.string dataset.root)), ("data_yaml", dataset.dataYaml.map .string),
      ("splits", some (Json.ofTable Split.all Split.name SplitCounts.toJson dataset.splits)),
      ("classes", some dataset.classes.toJson)]

/-- The dataset that a JSON value gives. -/
def ofJson? (value : Json) : Option DatasetInfo := do
  let fields ← Json.fields? ["root", "data_yaml", "splits", "classes"] value
  let root ← fields.required? "root" Json.string?
  let dataYaml ← fields.optional? "data_yaml" Json.string?
  let splits ← fields.required? "splits" (Json.readTable? Split.ofName? SplitCounts.ofJson?)
  let classes ← fields.required? "classes" ClassesInfo.ofJson?
  some { root, dataYaml, splits, classes }

end DatasetInfo

namespace CheckSummary

/-- The summary of a check as JSON. -/
def toJson (check : CheckSummary) : Json :=
  Json.record
    [("status", some (.string check.status.name)), ("counts", some check.counts.toJson),
      ("reason", check.reason.map .string)]

/-- The summary that a JSON value gives. -/
def ofJson? (value : Json) : Option CheckSummary := do
  let fields ← Json.fields? ["status", "counts", "reason"] value
  let status ← fields.required? "status" (Json.oneOf? CheckStatus.all CheckStatus.name)
  let counts ← fields.required? "counts" SeverityCounts.ofJson?
  let reason ← fields.optional? "reason" Json.string?
  some { status, counts, reason }

end CheckSummary

namespace Totals

/-- The totals as JSON. -/
def toJson (totals : Totals) : Json :=
  .object
    [("findings", .ofNat totals.findings), ("by_severity", totals.bySeverity.toJson),
      ("fail_threshold", .string totals.failThreshold.name),
      ("build_failed", .bool totals.buildFailed), ("check_errors", .ofTexts totals.checkErrors)]

/-- The names of the fields of totals. -/
def fieldNames : List String :=
  ["findings", "by_severity", "fail_threshold", "build_failed", "check_errors"]

/-- The totals that a JSON value gives. -/
def ofJson? (value : Json) : Option Totals := do
  let fields ← Json.fields? fieldNames value
  let findings ← fields.required? "findings" Json.count?
  let bySeverity ← fields.required? "by_severity" SeverityCounts.ofJson?
  let failThreshold ←
    fields.required? "fail_threshold" (Json.oneOf? Severity.descending Severity.name)
  let buildFailed ← fields.required? "build_failed" Json.bool?
  let checkErrors ← fields.required? "check_errors" (Json.array? Json.string?)
  some { findings, bySeverity, failThreshold, buildFailed, checkErrors }

end Totals

namespace Summary

/-- A summary as JSON. -/
def toJson (summary : Summary) : Json :=
  .object
    [("schema_version", .string summary.schemaVersion), ("run", summary.run.toJson),
      ("dataset", summary.dataset.toJson),
      ("checks", Json.ofTable CheckKind.all CheckKind.name CheckSummary.toJson summary.checks),
      ("totals", summary.totals.toJson)]

/-- The summary that a JSON value gives. -/
def ofJson? (value : Json) : Option Summary := do
  let fields ← Json.fields? ["schema_version", "run", "dataset", "checks", "totals"] value
  let schemaVersion ← fields.required? "schema_version" Json.string?
  let run ← fields.required? "run" RunInfo.ofJson?
  let dataset ← fields.required? "dataset" DatasetInfo.ofJson?
  let checks ← fields.required? "checks" (Json.readTable? CheckKind.ofName? CheckSummary.ofJson?)
  let totals ← fields.required? "totals" Totals.ofJson?
  some { schemaVersion, run, dataset, checks, totals }

/-- The summary in a text. -/
def parse? (text : String) : Option Summary :=
  (Json.parse? text).bind ofJson?

end Summary

end DatasetAudit
