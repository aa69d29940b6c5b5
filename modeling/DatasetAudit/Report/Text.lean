import DatasetAudit.Report.Basic
import DatasetAudit.Text.Column
/-!
Reports in words: the summary of a run, and the explanation that names the most frequent kinds of
findings and what to do about the most serious ones.
-/

namespace DatasetAudit

/-- The word for the result of a gate. -/
def gateWord (failed : Bool) : String :=
  if failed then "FAILED" else "passed"

namespace Summary

/-- The line of a split. -/
def splitLine (split : Split) (counts : SplitCounts) : String :=
  s!"  {split.name}: {counts.images} images ({counts.labeled} labeled, " ++
    s!"{counts.unlabeled} unlabeled)"

/-- The line of a check. -/
def checkLine (kind : CheckKind) (check : CheckSummary) : String :=
  let reason := check.reason.elim "" fun reason => s!" ({reason})"
  s!"  - {Text.alignLeft 18 kind.name} {Text.alignLeft 9 check.status.name} " ++
    s!"{check.counts.text}{reason}"

/-- The summary in words. -/
def text (summary : Summary) : String :=
  let totals := summary.totals
  Text.ofLines <|
    [s!"{toolName} {summary.run.toolVersion}", s!"Dataset: {summary.dataset.root}"] ++
      Split.all.filterMap (fun split => (summary.dataset.splits split).map (splitLine split)) ++
      [s!"Classes: {summary.dataset.classes.count}", "Checks:"] ++
      CheckKind.all.filterMap (fun kind => (summary.checks kind).map (checkLine kind)) ++
      [s!"Findings: {totals.findings} [{totals.bySeverity.text}]",
        s!"Gate: fail_on={totals.failThreshold.name} -> {gateWord totals.buildFailed}"]

end Summary

/-- How often a kind of finding occurs, and the highest severity that it occurs with. -/
structure Tally where
  id : FindingId
  count : Nat
  severity : Severity
deriving DecidableEq, Repr

namespace Tally

/-- The higher of two severities. -/
instance : Max Severity := maxOfLe

/-- The tallies of some findings, one for each kind that occurs. -/
def ofFindings (findings : List Finding) : List Tally :=
  FindingId.all.filterMap fun id =>
    let group := findings.filter fun finding => finding.id = id
    (group.map (·.severity)).max?.map fun severity => ⟨id, group.length, severity⟩

/-- Frequent kinds first, equally frequent ones by name. -/
def byCount : Tally → Tally → Ordering :=
  compareLex (fun a b => compare b.count a.count) (compareOn (·.id.name))

/-- Serious kinds first, equally serious ones by name. -/
def bySeverity : Tally → Tally → Ordering :=
  compareLex (fun a b => compare b.severity a.severity) (compareOn (·.id.name))

/-- The line that says how often a kind occurs. -/
def countLine (tally : Tally) : String :=
  s!"  {Text.alignRight 5 (toString tally.count)}  {Text.alignLeft 8 tally.severity.name} " ++
    tally.id.name

/-- The line that says what to do about a kind. -/
def actionLine (tally : Tally) : String :=
  let entry := tally.id.entry
  s!"  [{tally.severity.name}] {tally.id.name} ({entry.title}): {entry.suggestedAction}"

end Tally

/-- The explanation of a run: its result, and up to `top` kinds of findings in each list. -/
def explain (summary : Summary) (flags : Flags) (top : Nat) : String :=
  let totals := summary.totals
  let tallies := Tally.ofFindings flags.findings
  let first (order : Tally → Tally → Ordering) :=
    (tallies.mergeSort fun a b => (order a b).isLE).take top
  let result := s!"Run {summary.run.runId}: {totals.findings} findings " ++
    s!"[{totals.bySeverity.text}], gate {gateWord totals.buildFailed}"
  Text.ofLines <|
    if tallies.isEmpty then [result, "No findings."]
    else
      result :: "Top findings:" :: (first Tally.byCount).map Tally.countLine ++
        "Suggested actions:" :: (first Tally.bySeverity).map Tally.actionLine

end DatasetAudit
