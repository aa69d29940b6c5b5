import DatasetAudit.Cluster.Exact
import DatasetAudit.Proofs.Cluster.Basic

/-! The exact clusters, digest by digest: a digest that two entries or more have makes one cluster,
which gathers all of them, and every other digest makes none. -/

namespace DatasetAudit

/-- The entries whose files have a digest. -/
def copies (index : Index) (hash : String) : List IndexEntry :=
  index.entries.filter fun entry => entry.contentHash = some hash

/-- The cluster of the entries with a digest. -/
def copiesCluster (index : Index) (hash : String) : Cluster :=
  .ofMembers .exact hash ((copies index hash).map .ofEntry)

theorem mem_copies {index : Index} {hash : String} {entry : IndexEntry} :
    entry ∈ copies index hash ↔ entry ∈ index.entries ∧ entry.contentHash = some hash := by
  simp [copies]

theorem gathers_copies {index : Index} (hash : String)
    (hKeys : (index.entries.map IndexEntry.key).Nodup) :
    (copiesCluster index hash).Gathers (copies index hash) :=
  Cluster.gathers_ofMembers .exact hash (hKeys.sublist (List.filter_sublist.map _))

section ExactClusters

variable {index : Index} {hash : String}

/-- The members that a digest brings together are those of its copies. -/
theorem filter_hashedMembers (entries : List IndexEntry) :
    ((entries.filterMap hashedMember?).filter fun pair => pair.1 = hash) =
      (entries.filter fun entry => entry.contentHash = some hash).map
        fun entry => (hash, ClusterMember.ofEntry entry) := by
  induction entries with
  | nil => rfl
  | cons entry rest ih =>
      cases hHash : entry.contentHash with
      | none => simp [hashedMember?, hHash, ih]
      | some other =>
          by_cases hEq : other = hash
          · simp [hashedMember?, hHash, hEq, ih]
          · simp [hashedMember?, hHash, hEq, ih]

theorem mem_exactClusters {cluster : Cluster} :
    cluster ∈ exactClusters index ↔
      ∃ hash, 2 ≤ (copies index hash).length ∧ cluster = copiesCluster index hash := by
  have hMembers (hash : String) :
      ((copies index hash).map fun entry => (hash, ClusterMember.ofEntry entry)).map (·.2) =
        (copies index hash).map ClusterMember.ofEntry := by
    rw [List.map_map]
    rfl
  rw [exactClusters, List.mem_map]
  constructor
  · rintro ⟨⟨hash, group⟩, hGroup, rfl⟩
    obtain ⟨hGroup, hTwo⟩ := List.mem_filter.mp hGroup
    obtain ⟨rfl, _⟩ := mem_groupByKey.mp hGroup
    rw [filter_hashedMembers] at hTwo ⊢
    refine ⟨hash, by simpa [copies] using hTwo, ?_⟩
    exact congrArg (Cluster.ofMembers .exact hash) (hMembers hash)
  · rintro ⟨hash, hTwo, rfl⟩
    refine ⟨(hash, (copies index hash).map fun entry => (hash, .ofEntry entry)), ?_, ?_⟩
    · refine List.mem_filter.mpr ⟨mem_groupByKey.mpr ⟨?_, ?_⟩, by simpa using hTwo⟩
      · exact (filter_hashedMembers index.entries).symm
      · intro hNil
        rw [List.map_eq_nil_iff] at hNil
        simp [hNil] at hTwo
    · exact congrArg (Cluster.ofMembers .exact hash) (hMembers hash)

theorem exactClusters_ascending (index : Index) :
    Ascending Cluster.key (exactClusters index) := by
  rw [exactClusters, Ascending, List.pairwise_map]
  exact (groupByKey_ascending _ _).filter _

/-- A digest has its cluster, and no other, if two entries or more have it. -/
theorem exactClusters_filter (index : Index) (hash : String) :
    (exactClusters index).filter (fun cluster => cluster.key = hash) =
      if 2 ≤ (copies index hash).length then [copiesCluster index hash] else [] := by
  have hRight : Ascending Cluster.key
      (if 2 ≤ (copies index hash).length then [copiesCluster index hash] else []) := by
    split
    · exact List.pairwise_singleton _ _
    · exact List.Pairwise.nil
  apply Ascending.eq_of_mem_iff ((exactClusters_ascending index).filter _) hRight
  intro cluster
  rw [List.mem_filter, mem_exactClusters, decide_eq_true_eq]
  constructor
  · rintro ⟨⟨_, hTwo, rfl⟩, rfl⟩
    exact (if_pos hTwo).symm ▸ List.mem_singleton_self _
  · intro hCluster
    split at hCluster
    · rename_i hTwo
      rw [List.mem_singleton] at hCluster
      exact ⟨⟨hash, hTwo, hCluster⟩, hCluster ▸ rfl⟩
    · cases hCluster

end ExactClusters

end DatasetAudit
