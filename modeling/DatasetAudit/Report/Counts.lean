import DatasetAudit.Finding.Basic
/-!
How many findings there are of each severity.
-/

namespace DatasetAudit

/-- The number of findings of each severity. -/
structure SeverityCounts where
  critical : Nat := 0
  high : Nat := 0
  medium : Nat := 0
  low : Nat := 0
deriving DecidableEq, Repr

namespace SeverityCounts

/-- The counts of some findings. -/
def ofFindings (findings : List Finding) : SeverityCounts :=
  let count (severity : Severity) := findings.countP fun finding => finding.severity = severity
  ⟨count .critical, count .high, count .medium, count .low⟩

/-- The count of a severity. -/
def get (counts : SeverityCounts) : Severity → Nat
  | .critical => counts.critical
  | .high => counts.high
  | .medium => counts.medium
  | .low => counts.low

/-- The number of all findings. -/
def total (counts : SeverityCounts) : Nat :=
  counts.critical + counts.high + counts.medium + counts.low

/-- The number of findings at or above a severity. -/
def atOrAbove (counts : SeverityCounts) (threshold : Severity) : Nat :=
  (Severity.descending.filter fun severity => threshold ≤ severity).foldl
    (fun sum severity => sum + counts.get severity) 0

/-- The counts on one line, the highest severity first. -/
def text (counts : SeverityCounts) : String :=
  " ".intercalate (Severity.descending.map fun severity =>
    s!"{severity.name}={counts.get severity}")

end SeverityCounts

end DatasetAudit
