import DatasetAudit.Cluster.Basic
import DatasetAudit.Finding.Basic
import DatasetAudit.Finding.Fingerprint
/-!
The duplicate checks: one finding for each cluster of images that are the same or look alike. Its
fingerprint depends on the members only.
-/

namespace DatasetAudit

/-- What makes a cluster, in metrics: the largest distance between its members, or the digest that
they share. -/
def Cluster.evidence (cluster : Cluster) : String × Json :=
  match cluster.maxDistance with
  | some distance => ("max_hamming_distance", .ofNat distance)
  | none => ("sha256", .string cluster.key)

namespace Duplicates

/-- The kinds of findings of clusters within one split and across splits. -/
def findingId : ClusterKind → Scope → FindingId
  | .exact, .within _ => .duplicateWithinSplit
  | .exact, .across => .duplicateAcrossSplits
  | .near, .within _ => .nearDuplicateWithinSplit
  | .near, .across => .nearDuplicateAcrossSplits

/-- What the members of a cluster are called in messages. -/
def noun : ClusterKind → String
  | .exact => "Exact duplicate"
  | .near => "Near-duplicate"

/-- The split of a cluster that lies within one. -/
def scopeSplit? : Scope → Option Split
  | .within split => some split
  | .across => none

/-- The metrics of a cluster, in the order of their names. -/
def metrics (cluster : Cluster) : Json :=
  let size := ("cluster_size", Json.ofNat cluster.members.length)
  let members := ("members", Json.ofTexts (cluster.identities []))
  let splits := ("splits", Json.ofTexts (cluster.splits.map Split.name))
  match cluster.maxDistance with
  | some _ => .object [size, cluster.evidence, members, splits]
  | none => .object [size, members, cluster.evidence, splits]

/-- The finding of a cluster. -/
def finding (cluster : Cluster) : Finding :=
  let id := findingId cluster.kind cluster.scope
  let images := ", ".intercalate (cluster.members.map (·.image))
  { Finding.ofCatalog id
      s!"{noun cluster.kind} cluster of {cluster.members.length} images: {images}."
      (fingerprint id (cluster.identities [])) with
    split := scopeSplit? cluster.scope
    image := cluster.members.head?.map (·.image)
    label := cluster.members.head?.bind (·.label)
    metrics := some (metrics cluster) }

end Duplicates

end DatasetAudit
