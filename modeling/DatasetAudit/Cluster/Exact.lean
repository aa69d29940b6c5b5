import DatasetAudit.Cluster.Basic
import DatasetAudit.Index.Basic
/-!
Images with the same bytes: the entries of an index grouped by the digest of their files.
-/

namespace DatasetAudit

/-- The digest of an entry's file with the member that the entry makes. -/
def hashedMember? (entry : IndexEntry) : Option (String × ClusterMember) :=
  entry.contentHash.map fun hash => (hash, ClusterMember.ofEntry entry)

/-- One cluster for each digest that two entries or more have, in ascending order of digests. -/
def exactClusters (index : Index) : List Cluster :=
  ((groupByKey (·.1) (index.entries.filterMap hashedMember?)).filter
    fun (_, group) => 2 ≤ group.length).map
      fun (hash, group) => Cluster.ofMembers .exact hash (group.map (·.2))

end DatasetAudit
