import DatasetAudit.Finding.Catalog
import DatasetAudit.Json.Basic
/-!
Findings, and the order in which they are presented.
-/

namespace DatasetAudit

/-- One defect of a dataset. -/
structure Finding where
  id : FindingId
  severity : Severity
  message : String
  fingerprint : String
  split : Option Split := none
  image : Option String := none
  label : Option String := none
  classId : Option Int64 := none
  metrics : Option Json := none
  suggestedAction : Option String := none

namespace Finding

/-- A finding with the severity and the action that the catalog gives its kind. -/
def ofCatalog (id : FindingId) (message fingerprint : String) : Finding :=
  { id, message, fingerprint
    severity := id.entry.severity
    suggestedAction := some id.entry.suggestedAction }

/-- The order of presentation: by name, split, image, label and fingerprint, a finding without one
of them before those that have it. -/
def order : Finding → Finding → Ordering :=
  compareLex (compareOn (·.id.name)) <|
    compareLex (compareOn (·.split)) <|
      compareLex (compareOn (·.image)) <|
        compareLex (compareOn (·.label)) (compareOn (·.fingerprint))

/-- Findings in the order of presentation, those that do not differ in it left as they stand. -/
def sort (findings : List Finding) : List Finding :=
  findings.mergeSort fun a b => (order a b).isLE

end Finding

end DatasetAudit
