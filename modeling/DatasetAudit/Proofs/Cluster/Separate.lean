import DatasetAudit.Cluster.Set
import DatasetAudit.Proofs.Cluster.Arrival
import DatasetAudit.Proofs.Cluster.Exact

/-! Clusters of one kind have no image in common, so that the identities of their members, or of
those that lie in some splits, tell them apart. -/

namespace DatasetAudit

namespace Cluster

/-- Clusters of a kind, each of entries of the index, and no two with an image in common. -/
structure Separate (kind : ClusterKind) (index : Index) (clusters : List Cluster) : Prop where
  kind : ∀ cluster ∈ clusters, cluster.kind = kind
  gathers : ∀ cluster ∈ clusters, ∃ group, cluster.Gathers group ∧ group ⊆ index.entries ∧
    group ≠ []
  apart : clusters.Pairwise fun cluster other => ∀ member ∈ cluster.members,
    ∀ member' ∈ other.members, member.key ≠ member'.key

theorem Separate.nil (kind : ClusterKind) (index : Index) : Separate kind index [] :=
  ⟨List.forall_mem_nil _, List.forall_mem_nil _, .nil⟩

variable {cluster other : Cluster}

theorem identities_ne {splits : List Split}
    (h : ∀ member ∈ cluster.members, ∀ member' ∈ other.members, member.key ≠ member'.key)
    (hSome : cluster.identities splits ≠ []) :
    cluster.identities splits ≠ other.identities splits := by
  intro hEq
  obtain ⟨identity, hIdentity⟩ := List.exists_mem_of_ne_nil _ hSome
  obtain ⟨member, hMember, hText⟩ := List.mem_map.mp hIdentity
  obtain ⟨member', hMember', hText'⟩ := List.mem_map.mp (hEq ▸ hIdentity)
  exact h member (List.mem_of_mem_filter hMember) member' (List.mem_of_mem_filter hMember')
    (ImageKey.text_injective (hText.trans hText'.symm))

end Cluster

section Index

open Cluster (Separate)

variable {index : Index}

theorem exactClusters_separate (hKeys : (index.entries.map IndexEntry.key).Nodup) :
    Separate .exact index (exactClusters index) := by
  refine ⟨fun cluster hCluster => ?_, ?_, ?_⟩
  · obtain ⟨_, -, rfl⟩ := mem_exactClusters.mp hCluster
    rfl
  · intro cluster hCluster
    obtain ⟨hash, hTwo, rfl⟩ := mem_exactClusters.mp hCluster
    refine ⟨_, gathers_copies hash hKeys, fun _ hEntry => List.mem_of_mem_filter hEntry, ?_⟩
    exact List.ne_nil_of_length_pos (Nat.lt_of_lt_of_le Nat.zero_lt_two hTwo)
  · have hDigests := (exactClusters_ascending index).nodup
    apply (List.pairwise_map.mp hDigests).imp_of_mem
    intro cluster other hCluster hOther hDigest member hMember member' hMember' hKey
    obtain ⟨hash, -, rfl⟩ := mem_exactClusters.mp hCluster
    obtain ⟨hash', -, rfl⟩ := mem_exactClusters.mp hOther
    obtain ⟨entry, hEntry, rfl⟩ := (gathers_copies hash hKeys).mem_members.mp hMember
    obtain ⟨entry', hEntry', rfl⟩ := (gathers_copies hash' hKeys).mem_members.mp hMember'
    obtain ⟨hEntry, hHash⟩ := mem_copies.mp hEntry
    obtain ⟨hEntry', hHash'⟩ := mem_copies.mp hEntry'
    obtain rfl : entry = entry' := List.inj_on_of_nodup_map hKeys hEntry hEntry' hKey
    exact hDigest (Option.some.inj (hHash.symm.trans hHash'))

theorem nearClusters_separate (threshold : Nat) (hKeys : (index.entries.map IndexEntry.key).Nodup) :
    Separate .near index (nearClusters index threshold) := by
  refine ⟨fun _ => Near.kind_of_mem_nearClusters, ?_, ?_⟩
  · intro cluster hCluster
    obtain ⟨group, hComponent, hDescribes, a, ha, -⟩ := Near.exists_component_of_mem hKeys hCluster
    exact ⟨group, hComponent.gathers hKeys hDescribes, hComponent.subset, List.ne_nil_of_mem ha⟩
  · apply (Near.nearClusters_nodup threshold hKeys).imp_of_mem
    intro cluster other hCluster hOther hNe member hMember member' hMember' hKey
    exact hNe (Near.eq_of_mem_members hKeys hCluster hOther hMember hMember' hKey)

variable (config : Config)

theorem ClusterSet.separate_exact (hKeys : (index.entries.map IndexEntry.key).Nodup) :
    Separate .exact index (ClusterSet.build index config).exact := by
  simp only [ClusterSet.build]
  split
  · exact exactClusters_separate hKeys
  · exact .nil .exact index

theorem ClusterSet.separate_near (hKeys : (index.entries.map IndexEntry.key).Nodup)
    {near : List Cluster} (h : (ClusterSet.build index config).near = some near) :
    Separate .near index near := by
  simp only [ClusterSet.build] at h
  split at h
  · obtain rfl := Option.some.inj h
    exact nearClusters_separate _ hKeys
  · cases h

end Index

end DatasetAudit
