import DatasetAudit.Artifact.Finding
import DatasetAudit.Artifact.Summary
import DatasetAudit.Diff.Basic
/-!
The comparison of two runs in JSON.
-/

namespace DatasetAudit

/-- A part of a comparison as JSON. -/
def DiffPart.toJson (part : DiffPart) : Json :=
  .object
    [("counts", part.counts.toJson), ("findings", .array (part.findings.map Finding.toJson))]

/-- A comparison as JSON. -/
def Diff.toJson (diff : Diff) : Json :=
  .object
    [("regression_threshold", .string diff.threshold.name), ("regression", .bool diff.regression),
      ("introduced", diff.introduced.toJson), ("resolved", diff.resolved.toJson),
      ("persisting", diff.persisting.toJson)]

end DatasetAudit
