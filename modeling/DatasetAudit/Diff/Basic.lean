import DatasetAudit.Report.Counts
import Std.Data.TreeMap
/-!
What has changed between two runs. Findings are the same if their fingerprints are: those that only
the new run has are introduced, those that only the old one has are resolved, and the others
persist.
-/

namespace DatasetAudit

/-- A part of a comparison: findings in ascending order of fingerprints, and how many of each
severity they are. -/
structure DiffPart where
  counts : SeverityCounts
  findings : List Finding

namespace DiffPart

/-- The part that holds these findings. -/
def ofFindings (findings : List Finding) : DiffPart :=
  ⟨.ofFindings findings, findings⟩

/-- The fingerprints of the findings. -/
def fingerprints (part : DiffPart) : List String :=
  part.findings.map (·.fingerprint)

end DiffPart

/-- The comparison of two runs. It is a regression if it introduces a finding at or above the
threshold. -/
structure Diff where
  threshold : Severity
  regression : Bool
  introduced : DiffPart
  resolved : DiffPart
  persisting : DiffPart

namespace Diff

/-- The findings by fingerprint; of findings with one fingerprint the first counts. -/
def byFingerprint (findings : List Finding) : Std.TreeMap String Finding :=
  findings.foldl (fun found finding => found.insertIfNew finding.fingerprint finding) ∅

/-- The findings whose fingerprints satisfy a condition, in ascending order of fingerprints. -/
def select (findings : Std.TreeMap String Finding) (condition : String → Bool) : DiffPart :=
  .ofFindings ((findings.toList.filter fun (fingerprint, _) => condition fingerprint).map (·.2))

/-- The comparison of the findings of an old and a new run. What persists is given as the new run
has it. -/
def compute (old new : List Finding) (threshold : Severity) : Diff :=
  let old := byFingerprint old
  let new := byFingerprint new
  let introduced := select new fun fingerprint => !old.contains fingerprint
  { threshold, introduced
    regression := 0 < introduced.counts.atOrAbove threshold
    resolved := select old fun fingerprint => !new.contains fingerprint
    persisting := select new fun fingerprint => old.contains fingerprint }

end Diff

end DatasetAudit
