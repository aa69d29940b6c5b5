import DatasetAudit.Config
import DatasetAudit.Distribution.Basic
import DatasetAudit.Finding.Basic
import DatasetAudit.Finding.Fingerprint
/-!
The class distribution check: a class that dominates, classes with too few annotations, and
evaluation splits whose classes are spread otherwise than those of the training split.
-/

namespace DatasetAudit.ClassBalance

/-- A class in messages: its id, with its name if it has one. -/
def classText (index : Index) (classId : Nat) : String :=
  match index.classNames[classId]? with
  | some name => s!"{classId} ({name})"
  | none => toString classId

/-- The id of a class in a finding. -/
def findingClass (classId : Nat) : Option Int64 :=
  some (Int64.ofNat classId)

/-- The finding of a class that dominates. -/
def imbalance (config : ClassDistributionConfig) (index : Index) (total : UInt64) (classId : Nat)
    (share : Float) : Finding :=
  let id := FindingId.classImbalanceHigh
  let percent := Decimal.fixedText 1 (share * 100)
  let finding := Finding.ofCatalog id
    s!"Class {classText index classId} holds {percent}% of all instances."
    (fingerprint id [toString classId])
  let metrics :=
    [("dominant_share", Json.ofFloat share), ("threshold", .ofFloat config.maxClassShareWarn),
      ("total_instances", .ofNat total.toNat)]
  { finding with classId := findingClass classId, metrics := some (.object metrics) }

/-- The finding of a class with too few annotations. -/
def lowSupport (config : ClassDistributionConfig) (index : Index) (classId : Nat)
    (count : UInt64) : Finding :=
  let id := FindingId.classLowSupport
  let limit := config.minInstancesPerClassWarn.toNat
  let finding := Finding.ofCatalog id
    s!"Class {classText index classId} has {count.toNat} instances, below {limit}."
    (fingerprint id [toString classId])
  let metrics := [("count", Json.ofNat count.toNat), ("threshold", .ofNat limit)]
  { finding with classId := findingClass classId, metrics := some (.object metrics) }

/-- How serious a divergence is. -/
def driftSeverity (config : ClassDistributionConfig) (divergence : Float) : Severity :=
  if config.splitDriftJsdHigh ≤ divergence then .high else .medium

/-- The finding of a split that diverges from the training split. -/
def drift (config : ClassDistributionConfig) (target : Split) (divergence : Float) : Finding :=
  let id := FindingId.classSplitDrift
  let measure := Decimal.fixedText 3 divergence
  let finding := Finding.ofCatalog id
    s!"Class distribution of {target.name} drifts from train (JSD {measure})."
    (fingerprint id [target.name])
  let metrics :=
    [("high_threshold", Json.ofFloat config.splitDriftJsdHigh), ("jsd", .ofFloat divergence),
      ("reference_split", .string Split.train.name), ("target_split", .string target.name),
      ("warn_threshold", .ofFloat config.splitDriftJsdWarn)]
  { finding with
    severity := driftSeverity config divergence
    split := some target
    metrics := some (.object metrics) }

/-- The finding of a dominant class, if its part of all annotations is too large. -/
def imbalance? (config : ClassDistributionConfig) (index : Index) (total : ClassHistogram) :
    Option Finding :=
  (total.dominant?.filter fun (_, share) => config.maxClassShareWarn < share).map
    fun (classId, share) => imbalance config index total.total classId share

/-- The finding of a split, if it diverges too far from the training split. -/
def drift? (config : ClassDistributionConfig) (distribution : Distribution) (target : Split) :
    Option Finding :=
  ((distribution.driftFromTrain? target).filter
    fun divergence => !(divergence < config.splitDriftJsdWarn)).map (drift config target)

/-- Whether there are annotations, but no classes to count them by. -/
def lacksClasses (index : Index) : Bool :=
  index.classCount = 0 && index.entries.any fun entry => !entry.labels.rows.isEmpty

/-- The findings of a dataset. -/
def findings (config : ClassDistributionConfig) (index : Index) : List Finding :=
  let distribution := Distribution.ofIndex index
  (imbalance? config index distribution.total).toList ++
    ((distribution.total.lowSupport config.minInstancesPerClassWarn).map
      fun (classId, count) => lowSupport config index classId count) ++
    Split.evaluation.filterMap (drift? config distribution)

end DatasetAudit.ClassBalance
