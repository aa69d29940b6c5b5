import DatasetAudit.Cluster.Set
import DatasetAudit.Proofs.Cluster.Component
import DatasetAudit.Proofs.Cluster.Exact
import DatasetAudit.Proofs.Text.Basic

/-! Clusters of the same entries in another order. The exact clusters are the same. The near
clusters come in another order, and their keys change with the entry that is met first; apart from
that they are the same too. -/

namespace DatasetAudit

/-- A cluster without its key, which depends on the order of entries if the cluster is near. -/
def Cluster.unkeyed (cluster : Cluster) : Cluster :=
  { cluster with key := "" }

section Identity

theorem Utf8.encode_append (text other : String) :
    encode (text ++ other) = encode text ++ encode other := by
  simp [encode]

/-- The byte between the split and the path of an image. -/
theorem Utf8.encode_text (key : ImageKey) :
    encode key.text = encode key.split.name ++ 58 :: encode key.image := by
  rw [ImageKey.text, encode_append, encode_append, List.append_assoc]
  rfl

/-- No name of a split begins with that of another. -/
theorem Split.eq_of_encode {split other : Split} {rest rest' : List UInt8}
    (h : Utf8.encode split.name ++ 58 :: rest = Utf8.encode other.name ++ 58 :: rest') :
    split = other := by
  have hTrain : Utf8.encode "train" = [116, 114, 97, 105, 110] := by decide
  have hVal : Utf8.encode "val" = [118, 97, 108] := by decide
  have hTest : Utf8.encode "test" = [116, 101, 115, 116] := by decide
  cases split <;> cases other <;> simp [name, hTrain, hVal, hTest] at h ⊢

theorem ImageKey.text_injective {key other : ImageKey} (h : key.text = other.text) :
    key = other := by
  have hBytes := congrArg Utf8.encode h
  rw [Utf8.encode_text, Utf8.encode_text] at hBytes
  obtain ⟨split, image⟩ := key
  obtain ⟨otherSplit, otherImage⟩ := other
  obtain rfl : split = otherSplit := Split.eq_of_encode hBytes
  obtain ⟨-, hImage⟩ := List.cons.inj (List.append_cancel_left hBytes)
  exact congrArg (ImageKey.mk split) (Utf8.encode_injective hImage)

end Identity

namespace Near

section Clusters

variable {index other : Index} {threshold : Nat} {cluster cluster' : Cluster}
  {group group' : List IndexEntry}

/-- The largest distance is the same in whatever order entries are compared. -/
theorem Describes.maxDistance_eq (h : Describes cluster group) (h' : Describes cluster' group')
    (hPerm : group.Perm group') : cluster.maxDistance = cluster'.maxDistance := by
  obtain ⟨distance, hSome, ⟨a, ha, b, hb, _, hApart⟩, hBound⟩ := h.distance
  obtain ⟨distance', hSome', ⟨a', ha', b', hb', _, hApart'⟩, hBound'⟩ := h'.distance
  have hLE : distance ≤ distance' :=
    hBound' a (hPerm.mem_iff.mp ha) b (hPerm.mem_iff.mp hb) distance hApart
  have hGE : distance' ≤ distance :=
    hBound a' (hPerm.mem_iff.mpr ha') b' (hPerm.mem_iff.mpr hb') distance' hApart'
  rw [hSome, hSome', Nat.le_antisymm hLE hGE]

theorem Describes.unkeyed_eq (h : Describes cluster group) (h' : Describes cluster' group')
    (hKeys : (group.map IndexEntry.key).Nodup) (hPerm : group.Perm group') :
    cluster.unkeyed = cluster'.unkeyed := by
  have hMemberKeys : ((group.map ClusterMember.ofEntry).map ClusterMember.key).Nodup := by
    rw [List.map_map]
    exact hKeys
  have hMembers : cluster.members = cluster'.members := by
    rw [h.members, h'.members]
    exact sortByKey_eq_of_perm hMemberKeys (hPerm.map _)
  have hKind : cluster.kind = cluster'.kind := h.kind.trans h'.kind.symm
  simp only [Cluster.unkeyed, hMembers, hKind, h.maxDistance_eq h' hPerm]

theorem Describes.eq (h : Describes cluster group) (h' : Describes cluster' group)
    (hKeys : (group.map IndexEntry.key).Nodup) : cluster = cluster' := by
  have hSame := h.unkeyed_eq h' hKeys (.refl group)
  have hKey : cluster.key = cluster'.key := Option.some.inj (h.key.symm.trans h'.key)
  simp only [Cluster.unkeyed, Cluster.mk.injEq] at hSame
  cases cluster
  cases cluster'
  simp_all

/-- Clusters that share a member are one and the same. -/
theorem eq_of_mem_members (hKeys : (index.entries.map IndexEntry.key).Nodup)
    (hCluster : cluster ∈ nearClusters index threshold)
    (hCluster' : cluster' ∈ nearClusters index threshold) {member member' : ClusterMember}
    (hMember : member ∈ cluster.members) (hMember' : member' ∈ cluster'.members)
    (hEq : member.key = member'.key) : cluster = cluster' := by
  obtain ⟨group, hComponent, hDescribes, _⟩ := exists_component_of_mem hKeys hCluster
  obtain ⟨group', hComponent', hDescribes', _⟩ := exists_component_of_mem hKeys hCluster'
  have hGathers := hComponent.gathers hKeys hDescribes
  obtain ⟨entry, hEntry, rfl⟩ := hGathers.mem_members.mp hMember
  obtain ⟨entry', hEntry', rfl⟩ :=
    (hComponent'.gathers hKeys hDescribes').mem_members.mp hMember'
  have hSame : entry = entry' := List.inj_on_of_nodup_map hKeys (hComponent.subset entry hEntry)
    (hComponent'.subset entry' hEntry') hEq
  subst hSame
  obtain rfl := hComponent.eq_of_mem hComponent' hEntry hEntry'
  exact hDescribes.eq hDescribes' hGathers.distinct

theorem exists_mem_members (hKeys : (index.entries.map IndexEntry.key).Nodup)
    (hCluster : cluster ∈ nearClusters index threshold) : ∃ first rest,
      cluster.members = first :: rest := by
  obtain ⟨group, hComponent, hDescribes, a, ha, _⟩ := exists_component_of_mem hKeys hCluster
  have hMember := (hComponent.gathers hKeys hDescribes).mem_members.mpr ⟨a, ha, rfl⟩
  exact List.exists_cons_of_ne_nil (List.ne_nil_of_mem hMember)

theorem exists_maxDistance (hKeys : (index.entries.map IndexEntry.key).Nodup)
    (hCluster : cluster ∈ nearClusters index threshold) :
    ∃ distance, cluster.maxDistance = some distance := by
  obtain ⟨_, _, hDescribes, _⟩ := exists_component_of_mem hKeys hCluster
  obtain ⟨distance, hSome, _⟩ := hDescribes.distance
  exact ⟨distance, hSome⟩

/-- The clusters differ in their keys, as their components differ in their first entries. -/
theorem nearClusters_nodup (threshold : Nat) (hKeys : (index.entries.map IndexEntry.key).Nodup) :
    (nearClusters index threshold).Nodup := by
  obtain ⟨components, hDescribes, -, hHeads⟩ := nearClusters_components threshold hKeys
  have hComponents := hHeads (fun a b => a.key ≠ b.key) (List.pairwise_map.mp hKeys)
  clear hHeads
  generalize nearClusters index threshold = clusters at hDescribes
  induction hDescribes with
  | nil => exact .nil
  | @cons cluster group clusters groups hFirst hRest ih =>
      obtain ⟨hNew, hComponents⟩ := List.pairwise_cons.mp hComponents
      refine List.nodup_cons.mpr ⟨?_, ih hComponents⟩
      intro hCluster
      obtain ⟨group', hGroup', hDescribes'⟩ := exists_related hRest cluster hCluster
      obtain ⟨a, ha, hA⟩ := Option.map_eq_some_iff.mp hFirst.key
      obtain ⟨b, hb, hB⟩ := Option.map_eq_some_iff.mp hDescribes'.key
      exact hNew group' hGroup' a ha b hb (ImageKey.text_injective (hA.trans hB.symm))

theorem map_unkeyed_nodup (threshold : Nat) (hKeys : (index.entries.map IndexEntry.key).Nodup) :
    ((nearClusters index threshold).map Cluster.unkeyed).Nodup := by
  rw [List.nodup_map_iff_inj_on (nearClusters_nodup threshold hKeys)]
  intro cluster hCluster cluster' hCluster' hSame
  have hMembers : cluster.unkeyed.members = cluster'.unkeyed.members := congrArg _ hSame
  obtain ⟨first, rest, hFirst⟩ := exists_mem_members hKeys hCluster
  have hMember : first ∈ cluster.members := hFirst ▸ List.mem_cons_self
  exact eq_of_mem_members hKeys hCluster hCluster' hMember (hMembers ▸ hMember) rfl

theorem Chained.congr (hPerm : index.entries.Perm other.entries) {a b : IndexEntry}
    (h : Chained index threshold a b) : Chained other threshold a b := by
  apply Relation.ReflTransGen.mono _ _ _ h
  rintro _ _ ⟨hA, hB, hAlike⟩
  exact ⟨hPerm.mem_iff.mp hA, hPerm.mem_iff.mp hB, hAlike⟩

open Classical in
theorem component_perm (hPerm : index.entries.Perm other.entries) (entry : IndexEntry) :
    (component index threshold entry).Perm (component other threshold entry) := by
  have hSame : (index.entries.filter fun b => Chained index threshold entry b) =
      index.entries.filter fun b => Chained other threshold entry b := by
    apply List.filter_congr
    intro b _
    rw [decide_eq_decide]
    exact ⟨Chained.congr hPerm, Chained.congr hPerm.symm⟩
  rw [component, component, hSame]
  exact hPerm.filter _

theorem exists_unkeyed_eq (hKeys : (index.entries.map IndexEntry.key).Nodup)
    (hPerm : index.entries.Perm other.entries) (hCluster : cluster ∈ nearClusters index threshold) :
    ∃ cluster' ∈ nearClusters other threshold, cluster'.unkeyed = cluster.unkeyed := by
  have hOther : (other.entries.map IndexEntry.key).Nodup := (hPerm.map _).nodup_iff.mp hKeys
  obtain ⟨group, hComponent, hDescribes, a, ha, b, hb, hContent⟩ :=
    exists_component_of_mem hKeys hCluster
  have hGathers := hComponent.gathers hKeys hDescribes
  obtain ⟨entry, hEntry, hSome, rfl⟩ := hComponent
  have hGroup : (component index threshold entry).Perm (component other threshold entry) :=
    component_perm hPerm entry
  obtain ⟨cluster', hCluster', hDescribes'⟩ := exists_cluster_of_component hOther
    (isComponent_component threshold (hPerm.mem_iff.mp hEntry) hSome) (hGroup.mem_iff.mp ha)
    (hGroup.mem_iff.mp hb) hContent
  exact ⟨cluster', hCluster', (hDescribes.unkeyed_eq hDescribes' hGathers.distinct hGroup).symm⟩

/-- The near clusters do not depend on the order of entries, but for their order and their keys. -/
theorem map_unkeyed_perm (threshold : Nat) (hKeys : (index.entries.map IndexEntry.key).Nodup)
    (hPerm : index.entries.Perm other.entries) :
    ((nearClusters index threshold).map Cluster.unkeyed).Perm
      ((nearClusters other threshold).map Cluster.unkeyed) := by
  have hOther : (other.entries.map IndexEntry.key).Nodup := (hPerm.map _).nodup_iff.mp hKeys
  rw [List.perm_ext_iff_of_nodup (map_unkeyed_nodup threshold hKeys)
    (map_unkeyed_nodup threshold hOther)]
  intro shown
  simp only [List.mem_map]
  constructor
  · rintro ⟨cluster, hCluster, rfl⟩
    exact exists_unkeyed_eq hKeys hPerm hCluster
  · rintro ⟨cluster, hCluster, rfl⟩
    exact exists_unkeyed_eq hOther hPerm.symm hCluster

end Clusters

end Near

section Exact

variable {index other : Index}

theorem copiesCluster_eq_of_perm (hKeys : (index.entries.map IndexEntry.key).Nodup)
    (hPerm : index.entries.Perm other.entries) (hash : String) :
    copiesCluster index hash = copiesCluster other hash := by
  have hCopies : ((copies index hash).map ClusterMember.ofEntry).Perm
      ((copies other hash).map ClusterMember.ofEntry) := (hPerm.filter _).map _
  have hMembers : (((copies index hash).map ClusterMember.ofEntry).map ClusterMember.key).Nodup := by
    rw [List.map_map]
    exact (gathers_copies hash hKeys).distinct
  rw [copiesCluster, copiesCluster, Cluster.ofMembers, Cluster.ofMembers,
    sortByKey_eq_of_perm hMembers hCopies]

/-- The exact clusters do not depend on the order of entries. -/
theorem exactClusters_eq_of_perm (hKeys : (index.entries.map IndexEntry.key).Nodup)
    (hPerm : index.entries.Perm other.entries) : exactClusters index = exactClusters other := by
  have hLength (hash : String) : (copies index hash).length = (copies other hash).length :=
    (hPerm.filter _).length_eq
  apply (exactClusters_ascending index).eq_of_mem_iff (exactClusters_ascending other)
  intro cluster
  simp only [mem_exactClusters, hLength, copiesCluster_eq_of_perm hKeys hPerm]

end Exact

end DatasetAudit
