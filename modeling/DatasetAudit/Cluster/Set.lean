import DatasetAudit.Cluster.Exact
import DatasetAudit.Cluster.Near
import DatasetAudit.Config
/-!
The clusters that the checks of a run share.
-/

namespace DatasetAudit

/-- The clusters of a run. There are no near clusters if nothing asks for them or the index has no
perceptual hashes. -/
structure ClusterSet where
  exact : List Cluster
  near : Option (List Cluster)

/-- The clusters that a configuration asks for. -/
def ClusterSet.build (index : Index) (config : Config) : ClusterSet where
  exact :=
    if config.checks.duplicates.enabled || config.checks.leakage.enabled then exactClusters index
    else []
  near :=
    if index.perceptualHashing && config.wantsPerceptualHashes then
      some (nearClusters index config.checks.nearDuplicates.phashHammingThreshold.toNat)
    else none

end DatasetAudit
