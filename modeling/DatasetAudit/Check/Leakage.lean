import DatasetAudit.Check.Duplicates
import DatasetAudit.Cluster.Set
/-!
The leakage check: clusters that reach from the training split into an evaluation split. A cluster
that reaches into both yields a finding for each.
-/

namespace DatasetAudit.Leakage

/-- The kind of the finding of a cluster that reaches into an evaluation split. -/
def findingId : ClusterKind → Split → FindingId
  | .exact, .test => .leakageExactTrainTest
  | .exact, _ => .leakageExactTrainVal
  | .near, .test => .leakageNearTrainTest
  | .near, _ => .leakageNearTrainVal

/-- What the members of a cluster are called in messages. -/
def adjective : ClusterKind → String
  | .exact => "Exact"
  | .near => "Near-duplicate"

/-- The finding of a cluster that reaches from one split into another; `first` is its first member
there. -/
def finding (cluster : Cluster) (origin target : Split) (first : ClusterMember) : Finding :=
  let id := findingId cluster.kind target
  let trainImages := cluster.imagesIn origin
  let evalImages := cluster.imagesIn target
  let evalText := ", ".intercalate evalImages
  let trainText := ", ".intercalate trainImages
  { Finding.ofCatalog id
      (s!"{adjective cluster.kind} {origin.name}/{target.name} leakage: " ++
        s!"{evalText} shares content with {trainText}.")
      (fingerprint id (cluster.identities [origin, target])) with
    split := some target
    image := some first.image
    label := first.label
    metrics := some (.object
      [("eval_images", .ofTexts evalImages), cluster.evidence,
        ("train_images", .ofTexts trainImages)]) }

/-- The findings of one cluster. -/
def clusterFindings (cluster : Cluster) : List Finding :=
  cluster.leakagePairs.filterMap fun (origin, target) =>
    (cluster.members.find? fun member => member.split = target).map (finding cluster origin target)

/-- The findings of the clusters of a run. Near clusters are looked at only if that is wanted. -/
def findings (config : LeakageConfig) (clusters : ClusterSet) : List Finding :=
  let near := if config.includeNearDup then clusters.near.getD [] else []
  clusters.exact.flatMap clusterFindings ++ near.flatMap clusterFindings

/-- Whether near clusters are wanted and there are none to look at. -/
def lacksNear (config : LeakageConfig) (clusters : ClusterSet) : Bool :=
  config.includeNearDup && clusters.near.isNone

end DatasetAudit.Leakage
