import DatasetAudit.Check.BoxSanity
import DatasetAudit.Check.ClassBalance
import DatasetAudit.Check.Integrity
import DatasetAudit.Check.Leakage
/-!
Checks and their outcomes. Every check has an outcome in every run, in the order of the checks: one
that is switched off or lacks what it needs is skipped, and a check that fails stops no other.
-/

namespace DatasetAudit

/-- How a check ended. -/
inductive CheckStatus where
  | completed
  | skipped
  | error
deriving DecidableEq, Repr

namespace CheckStatus

/-- All ways in which a check can end. -/
def all : List CheckStatus := [.completed, .skipped, .error]

/-- The name of a status. -/
def name : CheckStatus → String
  | .completed => "completed"
  | .skipped => "skipped"
  | .error => "error"

end CheckStatus

/-- What keeps a check, or a part of it, from a result. -/
inductive CheckObstacle where
  | disabled
  | noPerceptualHashes
  | noClasses
  | nearLeakageLeftOut
deriving DecidableEq, Repr

namespace CheckObstacle

/-- The wording of an obstacle. -/
def message : CheckObstacle → String
  | .disabled => "disabled"
  | .noPerceptualHashes => "perceptual hashing unavailable in this build"
  | .noClasses => "dataset declares no class names but has annotation rows"
  | .nearLeakageLeftOut => "near-duplicate leakage not evaluated: perceptual hashes unavailable"

/-- How a check ends that has no result: it failed if the dataset is at fault. -/
def status : CheckObstacle → CheckStatus
  | .noClasses => .error
  | _ => .skipped

end CheckObstacle

/-- The outcome of a check. A completed check has a reason if a part of it was left out. -/
structure CheckOutcome where
  kind : CheckKind
  status : CheckStatus
  findings : List Finding := []
  reason : Option String := none

/-- The findings of a check, or what keeps it from a result. -/
def CheckKind.evaluate (kind : CheckKind) (index : Index) (config : Config)
    (clusters : ClusterSet) : Except CheckObstacle (List Finding) :=
  match kind with
  | .integrity => .ok (Integrity.findings index)
  | .classDistribution =>
    if ClassBalance.lacksClasses index then .error .noClasses
    else .ok (ClassBalance.findings config.checks.classDistribution index)
  | .bboxSanity => .ok (BoxSanity.findings config.checks.boxSanity index)
  | .duplicates => .ok (clusters.exact.map Duplicates.finding)
  | .nearDuplicates =>
    match clusters.near with
    | some near => .ok (near.map Duplicates.finding)
    | none => .error .noPerceptualHashes
  | .leakage => .ok (Leakage.findings config.checks.leakage clusters)

/-- What keeps a part of a completed check from a result. -/
def CheckKind.gap? (kind : CheckKind) (config : Config) (clusters : ClusterSet) :
    Option CheckObstacle :=
  if kind = .leakage && Leakage.lacksNear config.checks.leakage clusters then
    some .nearLeakageLeftOut
  else none

namespace CheckOutcome

/-- The outcome of a check without a result. -/
def ofObstacle (kind : CheckKind) (obstacle : CheckObstacle) : CheckOutcome :=
  { kind, status := obstacle.status, reason := some obstacle.message }

/-- The outcome of a check. -/
def ofCheck (index : Index) (config : Config) (clusters : ClusterSet) (kind : CheckKind) :
    CheckOutcome :=
  if config.isEnabled kind then
    match kind.evaluate index config clusters with
    | .ok findings =>
      { kind, status := .completed, findings
        reason := (kind.gap? config clusters).map CheckObstacle.message }
    | .error obstacle => ofObstacle kind obstacle
  else ofObstacle kind .disabled

end CheckOutcome

/-- The outcomes of all checks, in order. The clusters are found once and shared. -/
def runChecks (index : Index) (config : Config) : List CheckOutcome :=
  let clusters := ClusterSet.build index config
  CheckKind.all.map (CheckOutcome.ofCheck index config clusters)

end DatasetAudit
