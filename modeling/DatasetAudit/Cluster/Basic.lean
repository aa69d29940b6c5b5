import DatasetAudit.Grouping
import DatasetAudit.Index.Entry
/-!
Clusters of images that belong together, and what they say about the splits their members lie in.
-/

namespace DatasetAudit

/-- Why images belong together: they have the same bytes, or they look alike. -/
inductive ClusterKind where
  | exact
  | near
deriving DecidableEq, Repr

/-- An image in a cluster. -/
structure ClusterMember where
  split : Split
  image : String
  label : Option String
deriving DecidableEq, Repr

namespace ClusterMember

/-- The member that an entry makes. -/
def ofEntry (entry : IndexEntry) : ClusterMember :=
  ⟨entry.split, entry.image, entry.label⟩

/-- What the member is found by. -/
def key (member : ClusterMember) : ImageKey :=
  ⟨member.split, member.image⟩

/-- The text that stands for the member in fingerprints. -/
def identity (member : ClusterMember) : String :=
  member.key.text

end ClusterMember

/-- Where the members of a cluster lie. -/
inductive Scope where
  | within (split : Split)
  | across
deriving DecidableEq, Repr

/-- Images that belong together. The key is the digest that they share, or the identity of the
first member; `maxDistance` is the largest distance between two members that look alike. -/
structure Cluster where
  kind : ClusterKind
  key : String
  members : List ClusterMember
  maxDistance : Option Nat := none
deriving DecidableEq, Repr

namespace Cluster

/-- A cluster of these members, put in order and each taken once. -/
def ofMembers (kind : ClusterKind) (key : String) (members : List ClusterMember) : Cluster :=
  { kind, key, members := firstOfRuns ClusterMember.key (sortByKey ClusterMember.key members) }

/-- The splits that members lie in, in order. -/
def splits (cluster : Cluster) : List Split :=
  Split.all.filter fun split => cluster.members.any fun member => member.split = split

/-- Where the members lie. -/
def scope (cluster : Cluster) : Scope :=
  match cluster.splits with
  | [split] => .within split
  | _ => .across

/-- The evaluation splits that share the cluster with the training split, each after it. -/
def leakagePairs (cluster : Cluster) : List (Split × Split) :=
  if cluster.splits.contains .train then
    (Split.evaluation.filter cluster.splits.contains).map fun split => (.train, split)
  else []

/-- The identities of the members that lie in some splits, or of all if no split is given. -/
def identities (cluster : Cluster) (splits : List Split) : List String :=
  (cluster.members.filter fun member => splits.isEmpty || splits.contains member.split).map
    ClusterMember.identity

/-- The images of the members that lie in a split. -/
def imagesIn (cluster : Cluster) (split : Split) : List String :=
  (cluster.members.filter fun member => member.split = split).map (·.image)

end Cluster

end DatasetAudit
