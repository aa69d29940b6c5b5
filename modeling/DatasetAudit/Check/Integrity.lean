import DatasetAudit.Finding.About
import DatasetAudit.Finding.Fingerprint
import DatasetAudit.Index.Basic
/-!
The integrity check: images without label files and label files without images, images and label
files that cannot be read, rows that cannot be read, unknown classes and coordinates out of range.
Every defect is a finding of its own.
-/

namespace DatasetAudit.Integrity

/-- The word for a label file that cannot be read. -/
def readErrorReason : String := "read_error"

/-- Whether a row's class is one of the dataset's. -/
def isKnownClass (classCount : Nat) (classId : Int64) : Bool :=
  0 ≤ classId.toInt && classId.toInt < classCount

/-- Whether a coordinate lies within zero and one. No NaN does. -/
def isInUnit (x : Float) : Bool :=
  0 ≤ x && x ≤ 1

/-- The finding of an image without a label file. -/
def missingLabel (entry : IndexEntry) : Finding :=
  let id := FindingId.integrityMissingLabel
  (Finding.ofCatalog id "Image has no matching label file."
    (fingerprint id entry.fingerprintParts)).about entry

/-- The finding of an image that cannot be read or decoded. -/
def corruptImage (entry : IndexEntry) (reason : String) : Finding :=
  let id := FindingId.integrityCorruptImage
  (Finding.ofCatalog id s!"Image could not be read or decoded: {reason}"
    (fingerprint id entry.fingerprintParts)).about entry

/-- The finding of a label file that cannot be read. -/
def unreadableLabel (entry : IndexEntry) (reason : String) : Finding :=
  let id := FindingId.integrityMalformedRow
  let parts := entry.fingerprintParts ++ [lineText 0, readErrorReason]
  let finding := Finding.ofCatalog id s!"Label file could not be read: {reason}"
    (fingerprint id parts)
  let metrics := [("line", Json.ofNat 0), ("reason", .string readErrorReason)]
  { finding with metrics := some (.object metrics) }.about entry

/-- The finding of a row that cannot be read. -/
def malformedRow (entry : IndexEntry) (error : RowError) : Finding :=
  let id := FindingId.integrityMalformedRow
  let line := lineText error.line
  let finding := Finding.ofCatalog id s!"Malformed label row at line {line}: {error.reason}"
    (fingerprint id (entry.fingerprintParts ++ [line, error.reason]))
  let metrics :=
    [("line", Json.ofNat error.line.toNat), ("raw", .string error.raw),
      ("reason", .string error.reason)]
  { finding with metrics := some (.object metrics) }.about entry

/-- The finding of a row with an unknown class. -/
def unknownClass (entry : IndexEntry) (classCount : Nat) (row : AnnotationRow) : Finding :=
  let id := FindingId.integrityInvalidClassId
  let classId := toString row.classId.toInt
  let finding := Finding.ofCatalog id s!"Class id {classId} is outside [0, {classCount})."
    (fingerprint id (entry.fingerprintParts ++ [lineText row.line, classId]))
  let metrics := [("class_count", Json.ofNat classCount), ("line", Json.ofNat row.line.toNat)]
  { finding with classId := some row.classId, metrics := some (.object metrics) }.about entry

/-- The finding of a row with a coordinate out of range. -/
def outOfRange (entry : IndexEntry) (row : AnnotationRow) : Finding :=
  let id := FindingId.integrityCoordOutOfRange
  let finding := Finding.ofCatalog id s!"{row.kind} values must be normalized to [0, 1]."
    (fingerprint id (entry.fingerprintParts ++ [lineText row.line]))
  let metrics :=
    [("annotation_type", Json.string row.kind), ("line", .ofNat row.line.toNat),
      ("values", .array (row.values.map Json.ofFloat))]
  ({ finding with metrics := some (.object metrics) }.about entry).ofClass row

/-- The findings of one row. -/
def rowFindings (entry : IndexEntry) (classCount : Nat) (row : AnnotationRow) : List Finding :=
  (if isKnownClass classCount row.classId then [] else [unknownClass entry classCount row]) ++
    (if row.values.all isInUnit then [] else [outOfRange entry row])

/-- The findings of a label state that is not a readable file. -/
def stateFindings (entry : IndexEntry) : List Finding :=
  match entry.labels with
  | .unreadable reason => [unreadableLabel entry reason]
  | _ => []

/-- The findings of one entry. -/
def entryFindings (entry : IndexEntry) (classCount : Nat) : List Finding :=
  (if entry.labels.isMissing then [missingLabel entry] else []) ++
    (entry.imageError.map (corruptImage entry)).toList ++
    stateFindings entry ++
    entry.labels.errors.map (malformedRow entry) ++
    entry.labels.rows.flatMap (rowFindings entry classCount)

/-- The finding of a label file without an image. -/
def orphanLabel (split : Split) (label : String) : Finding :=
  let id := FindingId.integrityOrphanLabel
  { Finding.ofCatalog id "Label file has no matching image file."
      (fingerprint id [split.name, label]) with
    split := some split, label := some label }

/-- The findings of a dataset: those of its entries, and then its orphan labels. -/
def findings (index : Index) : List Finding :=
  index.entries.flatMap (fun entry => entryFindings entry index.classCount) ++
    index.splits.flatMap fun info => info.orphanLabels.map (orphanLabel info.split)

end DatasetAudit.Integrity
