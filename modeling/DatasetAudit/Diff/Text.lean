import DatasetAudit.Diff.Basic
import DatasetAudit.Text.Column
/-!
The comparison of two runs in words.
-/

namespace DatasetAudit

/-- The line of a finding. -/
def Finding.line (finding : Finding) : String :=
  s!"  {finding.fingerprint} {Text.alignLeft 8 finding.severity.name} {finding.id.name} " ++
    finding.message

/-- The line that counts the findings of a part. -/
def DiffPart.headLine (part : DiffPart) (title : String) : String :=
  s!"{title}: {part.findings.length} [{part.counts.text}]"

/-- The comparison in words. What persists is counted but not listed. -/
def Diff.text (diff : Diff) : String :=
  let answer := if diff.regression then "yes" else "no"
  Text.ofLines <|
    diff.introduced.headLine "Introduced" :: diff.introduced.findings.map Finding.line ++
      diff.resolved.headLine "Resolved" :: diff.resolved.findings.map Finding.line ++
      [diff.persisting.headLine "Persisting",
        s!"Regression (>= {diff.threshold.name}): {answer}"]

end DatasetAudit
