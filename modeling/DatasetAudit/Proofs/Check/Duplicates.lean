import DatasetAudit.Proofs.Check.Independence
import DatasetAudit.Proofs.Check.Leakage
import DatasetAudit.Proofs.Cluster.Separate
import DatasetAudit.Proofs.Index.Sample
import Mathlib.Data.List.Permutation

/-! Images with the same bytes, cluster by cluster and finding by finding. The digests that occur
more than once part the entries that have them into clusters, and each cluster has one finding, which
says where its members lie, lists them, and is recognised by them alone. -/

namespace DatasetAudit

/-- Clusters of entries by the digests that occur more than once, in the order of digests. -/
structure PartedByDigest (index : Index) (clusters : List Cluster) : Prop where
  ascending : Ascending Cluster.key clusters
  repeated : ∀ hash, (∃ cluster ∈ clusters, cluster.key = hash) ↔ 2 ≤ (copies index hash).length
  members : ∀ cluster ∈ clusters, ∀ member,
    member ∈ cluster.members ↔ ∃ entry ∈ index.entries,
      entry.contentHash = some cluster.key ∧ ClusterMember.ofEntry entry = member
  ordered : ∀ cluster ∈ clusters, Ascending ClusterMember.key cluster.members
  once : ∀ entry ∈ index.entries, ∀ cluster ∈ clusters, ∀ other ∈ clusters,
    entry.key ∈ cluster.members.map ClusterMember.key →
      entry.key ∈ other.members.map ClusterMember.key → cluster = other
  hashed : ∀ entry ∈ index.entries, entry.contentHash = none →
    ∀ cluster ∈ clusters, entry.key ∉ cluster.members.map ClusterMember.key

/-- What a finding tells about a cluster of images with the same bytes. -/
structure Duplicates.Tells (cluster : Cluster) (finding : Finding) : Prop where
  within : ∀ split, (∀ member ∈ cluster.members, member.split = split) →
    finding.id = .duplicateWithinSplit ∧ finding.split = some split
  across : (∀ split, ∃ member ∈ cluster.members, member.split ≠ split) →
    finding.id = .duplicateAcrossSplits ∧ finding.split = none
  members : finding.metric? "members" =
    some (.ofTexts (cluster.members.map ClusterMember.identity))
  size : finding.metric? "cluster_size" = some (.ofNat cluster.members.length)
  first : ∃ first, cluster.members.head? = some first ∧ finding.image = some first.image ∧
    finding.label = first.label
  fingerprint : finding.fingerprint =
    DatasetAudit.fingerprint finding.id (cluster.members.map ClusterMember.identity)

section Partition

variable {index : Index} {cluster : Cluster}

/-- The members of a cluster are found by the entries that have its digest. -/
theorem key_mem_members_iff (hKeys : (index.entries.map IndexEntry.key).Nodup)
    (h : cluster ∈ exactClusters index) {entry : IndexEntry} (hEntry : entry ∈ index.entries) :
    entry.key ∈ cluster.members.map ClusterMember.key ↔ entry.contentHash = some cluster.key := by
  obtain ⟨hash, -, rfl⟩ := mem_exactClusters.mp h
  have hGathers := gathers_copies hash hKeys
  rw [List.mem_map]
  constructor
  · rintro ⟨member, hMember, hKey⟩
    obtain ⟨copy, hCopy, rfl⟩ := hGathers.mem_members.mp hMember
    obtain ⟨hCopy, hHash⟩ := mem_copies.mp hCopy
    obtain rfl : copy = entry := List.inj_on_of_nodup_map hKeys hCopy hEntry hKey
    exact hHash
  · intro hHash
    exact ⟨_, hGathers.mem_members.mpr ⟨entry, mem_copies.mpr ⟨hEntry, hHash⟩, rfl⟩, rfl⟩

theorem partedByDigest_exactClusters (hKeys : (index.entries.map IndexEntry.key).Nodup) :
    PartedByDigest index (exactClusters index) where
  ascending := exactClusters_ascending index
  repeated := by
    intro hash
    constructor
    · rintro ⟨cluster, hCluster, rfl⟩
      obtain ⟨hash, hTwo, rfl⟩ := mem_exactClusters.mp hCluster
      exact hTwo
    · intro hTwo
      exact ⟨copiesCluster index hash, mem_exactClusters.mpr ⟨hash, hTwo, rfl⟩, rfl⟩
  members := by
    intro cluster hCluster member
    obtain ⟨hash, -, rfl⟩ := mem_exactClusters.mp hCluster
    simp only [(gathers_copies hash hKeys).mem_members, mem_copies, and_assoc]
    rfl
  ordered := by
    intro cluster hCluster
    obtain ⟨hash, -, rfl⟩ := mem_exactClusters.mp hCluster
    exact (gathers_copies hash hKeys).ascending
  once := by
    intro entry hEntry cluster hCluster other hOther hMember hMember'
    rw [key_mem_members_iff hKeys hCluster hEntry] at hMember
    rw [key_mem_members_iff hKeys hOther hEntry, hMember] at hMember'
    exact List.inj_on_of_nodup_map (exactClusters_ascending index).nodup hCluster hOther
      (Option.some.inj hMember')
  hashed := by
    intro entry hEntry hNone cluster hCluster
    rw [key_mem_members_iff hKeys hCluster hEntry, hNone]
    exact nofun

end Partition

namespace Duplicates

variable {index other : Index} {cluster cluster' : Cluster} {f f' : Finding}

theorem tells_finding (hKind : cluster.kind = .exact) (hDistance : cluster.maxDistance = none)
    (hMembers : cluster.members ≠ []) : Tells cluster (finding cluster) where
  within := by
    intro split hSplit
    have hScope := Cluster.scope_of_splits_eq hMembers hSplit
    simp only [finding, Finding.ofCatalog, hKind, hScope, findingId, scopeSplit?, and_self]
  across := by
    intro hApart
    have hScope : cluster.scope = .across := by
      cases hScope : cluster.scope with
      | across => rfl
      | within split =>
          obtain ⟨member, hMember, hSplit⟩ := hApart split
          exact absurd (Cluster.split_of_within hScope hMember) hSplit
    simp only [finding, Finding.ofCatalog, hKind, hScope, findingId, scopeSplit?, and_self]
  members := by
    rw [← cluster.identities_nil]
    simp only [Finding.metric?, finding, metrics, Cluster.evidence, hDistance]
    rfl
  size := by
    simp only [Finding.metric?, finding, metrics, Cluster.evidence, hDistance]
    rfl
  first := by
    obtain ⟨first, rest, hFirst⟩ := List.exists_cons_of_ne_nil hMembers
    exact ⟨first, by rw [hFirst, List.head?_cons], by simp [finding, hFirst],
      by simp [finding, hFirst]⟩
  fingerprint := by
    rw [← cluster.identities_nil]
    rfl

/-- Every exact cluster has a finding that tells about it, and no other finding stands between. -/
theorem forall₂_tells (index : Index) (hKeys : (index.entries.map IndexEntry.key).Nodup) :
    List.Forall₂ Tells (exactClusters index) ((exactClusters index).map finding) := by
  rw [List.forall₂_map_right_iff, List.forall₂_same]
  intro cluster hCluster
  obtain ⟨hash, hTwo, rfl⟩ := mem_exactClusters.mp hCluster
  apply tells_finding rfl rfl
  have hLength : (copiesCluster index hash).members.length = (copies index hash).length := by
    rw [(gathers_copies hash hKeys).members, (sortByKey_perm _ _).length_eq, List.length_map]
  rw [← List.length_pos_iff, hLength]
  exact Nat.lt_of_lt_of_le Nat.zero_lt_two hTwo

/-- Members in order are listed in the same way if they are the same. -/
theorem map_key_eq (h : Ascending ClusterMember.key cluster.members)
    (h' : Ascending ClusterMember.key cluster'.members)
    (hSame : ∀ identity, identity ∈ cluster.members.map ClusterMember.identity ↔
      identity ∈ cluster'.members.map ClusterMember.identity) :
    cluster.members.map ClusterMember.key = cluster'.members.map ClusterMember.key := by
  have hKey (cluster : Cluster) (key : ImageKey) :
      key.text ∈ cluster.members.map ClusterMember.identity ↔
        key ∈ cluster.members.map ClusterMember.key := by
    simp only [List.mem_map, ClusterMember.identity]
    exact exists_congr fun member => and_congr_right fun _ =>
      ⟨ImageKey.text_injective, congrArg ImageKey.text⟩
  have hAscending {cluster : Cluster} (h : Ascending ClusterMember.key cluster.members) :
      Ascending id (cluster.members.map ClusterMember.key) := List.pairwise_map.mpr h
  apply (hAscending h).eq_of_mem_iff (hAscending h')
  intro key
  rw [← hKey, ← hKey, hSame]

/-- The kind of a finding and its fingerprint depend on nothing but which members there are. -/
theorem Tells.fingerprint_eq (hTells : Tells cluster f) (hTells' : Tells cluster' f')
    (h : Ascending ClusterMember.key cluster.members)
    (h' : Ascending ClusterMember.key cluster'.members)
    (hSame : ∀ identity, identity ∈ cluster.members.map ClusterMember.identity ↔
      identity ∈ cluster'.members.map ClusterMember.identity) :
    f.id = f'.id ∧ f.fingerprint = f'.fingerprint := by
  have hKeys := map_key_eq h h' hSame
  have hSplits (P : Split → Prop) :
      (∀ member ∈ cluster.members, P member.split) ↔ ∀ member ∈ cluster'.members, P member.split := by
    have hAll (cluster : Cluster) : (∀ member ∈ cluster.members, P member.split) ↔
        ∀ key ∈ cluster.members.map ClusterMember.key, P key.split := by
      rw [List.forall_mem_map]
      rfl
    rw [hAll, hAll, hKeys]
  have hId : f.id = f'.id := by
    by_cases hWithin : ∃ split, ∀ member ∈ cluster.members, member.split = split
    · obtain ⟨split, hSplit⟩ := hWithin
      have hSplit' := (hSplits fun other => other = split).mp hSplit
      rw [(hTells.within split hSplit).1, (hTells'.within split hSplit').1]
    · have hAcross' : ¬ ∃ split, ∀ member ∈ cluster'.members, member.split = split := by
        rintro ⟨split, hSplit'⟩
        exact hWithin ⟨split, (hSplits fun other => other = split).mpr hSplit'⟩
      push Not at hWithin hAcross'
      rw [(hTells.across hWithin).1, (hTells'.across hAcross').1]
  have hIdentities (cluster : Cluster) : cluster.members.map ClusterMember.identity =
      (cluster.members.map ClusterMember.key).map ImageKey.text := by
    rw [List.map_map]
    rfl
  rw [hTells.fingerprint, hTells'.fingerprint, hIdentities, hIdentities, hKeys, hId]
  exact ⟨rfl, rfl⟩

/-- A digest in two splits, one that occurs twice in one split, and images that have no copies. -/
def copied : Index := .ofEntries
  [.ofHashes .val "d.png" (some "bb") none, .ofHashes .val "b.png" (some "aa") none,
    .ofHashes .train "e.png" none none, .ofHashes .val "c.png" (some "bb") none,
    .ofHashes .train "a.png" (some "aa") none, .ofHashes .test "f.png" (some "cc") none]

end Duplicates

end DatasetAudit
