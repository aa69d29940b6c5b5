import DatasetAudit.Cluster.Bands
import DatasetAudit.Cluster.Basic
import DatasetAudit.Cluster.DisjointSets
import DatasetAudit.Image.AverageHash
import DatasetAudit.Index.Basic
/-!
Images that look alike. Two images are linked if their perceptual hashes differ in few bits, and a
cluster holds everything that a chain of links connects. Only hashes that share a bucket are
compared, and none that a chain already connects.
-/

namespace DatasetAudit

namespace Near

/-- An entry with its perceptual hash. -/
abbrev HashedEntry := IndexEntry × UInt64

/-- The entries that have a perceptual hash. -/
def hashedEntries (index : Index) : List HashedEntry :=
  index.entries.filterMap fun entry => entry.perceptualHash.map fun hash => (entry, hash)

/-- The pairs of items of a list, the first before the second. -/
def pairs {α : Type} : List α → List (α × α)
  | [] => []
  | a :: rest => rest.map (fun b => (a, b)) ++ pairs rest

/-- Joins the sets of two positions if they are apart and their hashes are close. -/
def link (hashes : Array UInt64) (threshold : Nat) (sets : DisjointSets) (pair : Nat × Nat) :
    DisjointSets :=
  let (a, b) := pair
  let (rootA, sets) := sets.find a
  let (rootB, sets) := sets.find b
  if rootA = rootB then sets
  else if hamming (hashes.getD a 0) (hashes.getD b 0) ≤ threshold then sets.union a b
  else sets

/-- The sets of positions that chains of close hashes connect. -/
def linkedSets (hashes : List UInt64) (threshold : Nat) : DisjointSets :=
  let array := hashes.toArray
  (Bands.buckets hashes threshold).foldl
    (fun sets bucket => (pairs bucket).foldl (link array threshold) sets)
    (DisjointSets.singletons hashes.length)

/-- The sets of two positions or more, each in ascending order, in the order of their first
positions. -/
def groups (hashes : List UInt64) (threshold : Nat) : List (List Nat) :=
  let sets := linkedSets hashes threshold
  let bySet := groupByKey (fun position => (sets.find position).1) (List.range hashes.length)
  sortByKey (·.headD 0) ((bySet.map (·.2)).filter fun group => 2 ≤ group.length)

/-- The largest distance between two of some hashes. -/
def maxDistance? (hashes : List UInt64) : Option Nat :=
  ((pairs hashes).map fun (a, b) => hamming a b).max?

/-- Whether some entries differ in the digest of their files, an entry without one being different
from those with one. -/
def hasDistinctContent (group : List HashedEntry) : Bool :=
  match group with
  | [] => false
  | (first, _) :: rest => rest.any fun (entry, _) => entry.contentHash != first.contentHash

/-- The cluster of connected entries. Entries with the same bytes only are no near duplicates. -/
def cluster? (group : List HashedEntry) : Option Cluster :=
  if hasDistinctContent group then
    let members := group.map fun (entry, _) => ClusterMember.ofEntry entry
    let key := (members.head?.map ClusterMember.identity).getD ""
    some { Cluster.ofMembers .near key members with maxDistance := maxDistance? (group.map (·.2)) }
  else none

end Near

/-- The clusters of entries whose perceptual hashes are connected by chains of distances up to a
threshold, in the order of their first entries. -/
def nearClusters (index : Index) (threshold : Nat) : List Cluster :=
  let hashed := Near.hashedEntries index
  let array := hashed.toArray
  (Near.groups (hashed.map (·.2)) threshold).filterMap fun group =>
    Near.cluster? (group.filterMap fun position => array[position]?)

end DatasetAudit
