import DatasetAudit.Severity
/-!
The catalog of findings: for each kind of defect its name in reports, its usual severity, a title
and the action it suggests. The names take part in fingerprints and stay as they are.
-/

namespace DatasetAudit

/-- The kind of a finding. -/
inductive FindingId where
  | integrityMissingLabel
  | integrityOrphanLabel
  | integrityMalformedRow
  | integrityInvalidClassId
  | integrityCoordOutOfRange
  | integrityCorruptImage
  | classImbalanceHigh
  | classLowSupport
  | classSplitDrift
  | bboxTinyBox
  | bboxOversizedBox
  | bboxExtremeAspectRatio
  | bboxTooManyPerImage
  | duplicateWithinSplit
  | duplicateAcrossSplits
  | nearDuplicateWithinSplit
  | nearDuplicateAcrossSplits
  | leakageExactTrainVal
  | leakageExactTrainTest
  | leakageNearTrainVal
  | leakageNearTrainTest
deriving DecidableEq, Repr

/-- What the catalog says about a kind of finding. -/
structure CatalogEntry where
  severity : Severity
  title : String
  suggestedAction : String

namespace FindingId

/-- Every kind of finding, in the order of the catalog. -/
def all : List FindingId :=
  [.integrityMissingLabel, .integrityOrphanLabel, .integrityMalformedRow,
   .integrityInvalidClassId, .integrityCoordOutOfRange, .integrityCorruptImage,
   .classImbalanceHigh, .classLowSupport, .classSplitDrift, .bboxTinyBox, .bboxOversizedBox,
   .bboxExtremeAspectRatio, .bboxTooManyPerImage, .duplicateWithinSplit, .duplicateAcrossSplits,
   .nearDuplicateWithinSplit, .nearDuplicateAcrossSplits, .leakageExactTrainVal,
   .leakageExactTrainTest, .leakageNearTrainVal, .leakageNearTrainTest]

/-- The name of a kind of finding in reports. -/
def name : FindingId → String
  | .integrityMissingLabel => "INTEGRITY_MISSING_LABEL"
  | .integrityOrphanLabel => "INTEGRITY_ORPHAN_LABEL"
  | .integrityMalformedRow => "INTEGRITY_MALFORMED_ROW"
  | .integrityInvalidClassId => "INTEGRITY_INVALID_CLASS_ID"
  | .integrityCoordOutOfRange => "INTEGRITY_COORD_OUT_OF_RANGE"
  | .integrityCorruptImage => "INTEGRITY_CORRUPT_IMAGE"
  | .classImbalanceHigh => "CLASS_IMBALANCE_HIGH"
  | .classLowSupport => "CLASS_LOW_SUPPORT"
  | .classSplitDrift => "CLASS_SPLIT_DRIFT"
  | .bboxTinyBox => "BBOX_TINY_BOX"
  | .bboxOversizedBox => "BBOX_OVERSIZED_BOX"
  | .bboxExtremeAspectRatio => "BBOX_EXTREME_ASPECT_RATIO"
  | .bboxTooManyPerImage => "BBOX_TOO_MANY_PER_IMAGE"
  | .duplicateWithinSplit => "DUPLICATE_WITHIN_SPLIT"
  | .duplicateAcrossSplits => "DUPLICATE_ACROSS_SPLITS"
  | .nearDuplicateWithinSplit => "NEAR_DUPLICATE_WITHIN_SPLIT"
  | .nearDuplicateAcrossSplits => "NEAR_DUPLICATE_ACROSS_SPLITS"
  | .leakageExactTrainVal => "LEAKAGE_EXACT_TRAIN_VAL"
  | .leakageExactTrainTest => "LEAKAGE_EXACT_TRAIN_TEST"
  | .leakageNearTrainVal => "LEAKAGE_NEAR_TRAIN_VAL"
  | .leakageNearTrainTest => "LEAKAGE_NEAR_TRAIN_TEST"

/-- The catalog's entry for a kind of finding. -/
def entry : FindingId → CatalogEntry
  | .integrityMissingLabel =>
    { severity := .high
      title := "Image has no label file"
      suggestedAction :=
        "Add missing label files or move unlabeled images out of the split." }
  | .integrityOrphanLabel =>
    { severity := .medium
      title := "Label file has no image"
      suggestedAction :=
        "Remove the stale label or restore the missing image." }
  | .integrityMalformedRow =>
    { severity := .high
      title := "Malformed label row"
      suggestedAction :=
        "Fix the row so it has a class id followed by numeric coordinates." }
  | .integrityInvalidClassId =>
    { severity := .high
      title := "Class id outside the class list"
      suggestedAction :=
        "Remap the class id or extend the class list in data.yaml." }
  | .integrityCoordOutOfRange =>
    { severity := .high
      title := "Coordinates not normalized"
      suggestedAction :=
        "Normalize coordinates to [0,1] relative to image size." }
  | .integrityCorruptImage =>
    { severity := .critical
      title := "Image cannot be read or decoded"
      suggestedAction :=
        "Re-export or remove the corrupt image." }
  | .classImbalanceHigh =>
    { severity := .medium
      title := "Dominant class share too high"
      suggestedAction :=
        "Rebalance sampling and collect more minority-class data." }
  | .classLowSupport =>
    { severity := .low
      title := "Class has too few instances"
      suggestedAction :=
        "Increase labeled samples for low-support classes or merge/remove unstable classes." }
  | .classSplitDrift =>
    { severity := .medium
      title := "Class distribution drifts between splits"
      suggestedAction :=
        "Rebuild splits to align class distributions across train/val/test." }
  | .bboxTinyBox =>
    { severity := .medium
      title := "Box area below threshold"
      suggestedAction :=
        "Check whether tiny boxes are annotation mistakes." }
  | .bboxOversizedBox =>
    { severity := .medium
      title := "Box area above threshold"
      suggestedAction :=
        "Check whether the box should cover nearly the whole image." }
  | .bboxExtremeAspectRatio =>
    { severity := .medium
      title := "Box aspect ratio extreme"
      suggestedAction :=
        "Check for swapped or degenerate width/height values." }
  | .bboxTooManyPerImage =>
    { severity := .medium
      title := "Too many boxes in one image"
      suggestedAction :=
        "Check for duplicated annotation rows." }
  | .duplicateWithinSplit =>
    { severity := .medium
      title := "Exact duplicate images within a split"
      suggestedAction :=
        "Deduplicate images within the split." }
  | .duplicateAcrossSplits =>
    { severity := .high
      title := "Exact duplicate images across splits"
      suggestedAction :=
        "Deduplicate across splits before training." }
  | .nearDuplicateWithinSplit =>
    { severity := .low
      title := "Near-duplicate images within a split"
      suggestedAction :=
        "Review visually similar images for redundancy." }
  | .nearDuplicateAcrossSplits =>
    { severity := .high
      title := "Near-duplicate images across splits"
      suggestedAction :=
        "Move visually similar images into a single split." }
  | .leakageExactTrainVal =>
    { severity := .critical
      title := "Identical image in train and val"
      suggestedAction :=
        "Re-split dataset to eliminate train/val overlap." }
  | .leakageExactTrainTest =>
    { severity := .critical
      title := "Identical image in train and test"
      suggestedAction :=
        "Re-split dataset to eliminate train/test overlap." }
  | .leakageNearTrainVal =>
    { severity := .high
      title := "Near-identical image in train and val"
      suggestedAction :=
        "Re-split dataset so near-identical images share a split." }
  | .leakageNearTrainTest =>
    { severity := .high
      title := "Near-identical image in train and test"
      suggestedAction :=
        "Re-split dataset so near-identical images share a split." }

/-- The kind of finding of a name. -/
def ofName? (name : String) : Option FindingId :=
  all.find? fun id => id.name == name

end FindingId

end DatasetAudit
