import DatasetAudit.Finding.Basic
import DatasetAudit.Json.Parser
import DatasetAudit.Json.Record
import DatasetAudit.Report.Summary
/-!
Findings in JSON, and the file of all findings of a run. An optional field without a value is left
out.
-/

namespace DatasetAudit

/-- The greatest depth of free JSON in an artifact: a document may be nested 127 levels deep, and
three levels surround such a value. -/
def Json.freeDepth : Nat := 124

/-- A free value, in canonical form. -/
def Json.free? (value : Json) : Option Json :=
  if value.hasValue && value.depth ≤ Json.freeDepth then some value.canonical else none

namespace Finding

/-- A finding as JSON. -/
def toJson (finding : Finding) : Json :=
  Json.record
    [("id", some (.string finding.id.name)),
      ("severity", some (.string finding.severity.name)),
      ("message", some (.string finding.message)),
      ("fingerprint", some (.string finding.fingerprint)),
      ("split", finding.split.map fun split => .string split.name),
      ("image", finding.image.map .string),
      ("label", finding.label.map .string),
      ("class_id", finding.classId.map fun classId => .integer classId.toInt),
      ("metrics", finding.metrics),
      ("suggested_action", finding.suggestedAction.map .string)]

/-- The names of a finding's fields. -/
def fieldNames : List String :=
  ["id", "severity", "message", "fingerprint", "split", "image", "label", "class_id", "metrics",
    "suggested_action"]

/-- The finding that a JSON value gives. -/
def ofJson? (value : Json) : Option Finding := do
  let fields ← Json.fields? fieldNames value
  let id ← fields.required? "id" (Json.oneOf? FindingId.all FindingId.name)
  let severity ← fields.required? "severity" (Json.oneOf? Severity.descending Severity.name)
  let message ← fields.required? "message" Json.string?
  let fingerprint ← fields.required? "fingerprint" Json.string?
  let split ← fields.optional? "split" (Json.oneOf? Split.all Split.name)
  let image ← fields.optional? "image" Json.string?
  let label ← fields.optional? "label" Json.string?
  let classId ← fields.optional? "class_id" Json.int64?
  let metrics ← fields.optional? "metrics" Json.free?
  let suggestedAction ← fields.optional? "suggested_action" Json.string?
  some { id, severity, message, fingerprint, split, image, label, classId, metrics,
         suggestedAction }

end Finding

namespace Flags

/-- All findings of a run as JSON. -/
def toJson (flags : Flags) : Json :=
  .object
    [("schema_version", .string flags.schemaVersion),
      ("findings", .array (flags.findings.map Finding.toJson))]

/-- The findings that a JSON value gives. -/
def ofJson? (value : Json) : Option Flags := do
  let fields ← Json.fields? ["schema_version", "findings"] value
  let schemaVersion ← fields.required? "schema_version" Json.string?
  let findings ← fields.required? "findings" (Json.array? Finding.ofJson?)
  some { schemaVersion, findings }

/-- The findings in a text. -/
def parse? (text : String) : Option Flags :=
  (Json.parse? text).bind ofJson?

end Flags

end DatasetAudit
