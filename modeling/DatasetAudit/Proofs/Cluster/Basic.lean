import DatasetAudit.Cluster.Basic
import DatasetAudit.Proofs.Grouping

/-! Clusters as gatherings of entries. Entries with distinct keys make one member each, and the
members stand in the order of splits and then of images, so that what a cluster says about a split
can be read off the entries alone. -/

namespace DatasetAudit

namespace ImageKey

theorem compare_eq (a b : ImageKey) :
    compare a b = (compare a.split b.split).then (compare a.image b.image) := rfl

/-- Within a split the images decide. -/
theorem compare_image_of_split_eq {a b : ImageKey} (hSplit : a.split = b.split) :
    compare a b = compare a.image b.image := by
  rw [compare_eq, hSplit, Std.ReflOrd.compare_self]
  rfl

theorem compare_eq_lt_of_split_lt {a b : ImageKey} (hSplit : compare a.split b.split = .lt) :
    compare a b = .lt := by
  rw [compare_eq, hSplit]
  rfl

end ImageKey

/-- The images of the entries in a split, in ascending order. -/
def imagesOf (entries : List IndexEntry) (split : Split) : List String :=
  sortByKey id ((entries.filter fun entry => entry.split = split).map (·.image))

theorem mem_imagesOf {entries : List IndexEntry} {split : Split} {image : String} :
    image ∈ imagesOf entries split ↔
      ∃ entry ∈ entries, entry.split = split ∧ entry.image = image := by
  simp only [imagesOf, mem_sortByKey, List.mem_map, List.mem_filter, decide_eq_true_eq, and_assoc]

/-- An image of a split as it stands in fingerprints. -/
def identityIn (split : Split) (image : String) : String :=
  (ImageKey.mk split image).text

namespace Cluster

theorem mem_splits {cluster : Cluster} {split : Split} :
    split ∈ cluster.splits ↔ ∃ member ∈ cluster.members, member.split = split := by
  have hAll : split ∈ Split.all := by cases split <;> decide
  simp [splits, hAll]

theorem split_of_within {cluster : Cluster} {split : Split} (h : cluster.scope = .within split)
    {member : ClusterMember} (hMember : member ∈ cluster.members) : member.split = split := by
  have hSplit : member.split ∈ cluster.splits := mem_splits.mpr ⟨member, hMember, rfl⟩
  unfold scope at h
  split at h
  · rename_i only hOnly
    cases h
    simpa [hOnly] using hSplit
  · cases h

/-- A cluster whose members share a split lies within it. -/
theorem scope_of_splits_eq {cluster : Cluster} {split : Split} (hMembers : cluster.members ≠ [])
    (h : ∀ member ∈ cluster.members, member.split = split) : cluster.scope = .within split := by
  have hSplits : cluster.splits = [split] := by
    have hOnly (other : Split) : other ∈ cluster.splits ↔ other = split := by
      rw [mem_splits]
      constructor
      · rintro ⟨member, hMember, rfl⟩
        exact h member hMember
      · rintro rfl
        obtain ⟨member, hMember⟩ := List.exists_mem_of_ne_nil _ hMembers
        exact ⟨member, hMember, h member hMember⟩
    have hOrdered : Ascending id cluster.splits := by
      have hAll : Ascending id Split.all := by decide
      exact hAll.filter _
    apply hOrdered.eq_of_mem_iff (List.pairwise_singleton _ split)
    simpa using hOnly
  rw [scope, hSplits]

theorem identities_nil (cluster : Cluster) :
    cluster.identities [] = cluster.members.map ClusterMember.identity :=
  congrArg (List.map ClusterMember.identity) (List.filter_eq_self.mpr fun _ _ => rfl)

/-- Members with distinct keys are only put in order. -/
theorem members_ofMembers (kind : ClusterKind) (key : String) {members : List ClusterMember}
    (hKeys : (members.map ClusterMember.key).Nodup) :
    (ofMembers kind key members).members = sortByKey ClusterMember.key members := by
  apply firstOfRuns_eq_self
  exact (((sortByKey_perm ClusterMember.key members).map ClusterMember.key).nodup_iff).mpr hKeys

/-- The members of a cluster are made by entries with distinct keys, and stand in order. -/
structure Gathers (cluster : Cluster) (group : List IndexEntry) : Prop where
  members : cluster.members = sortByKey ClusterMember.key (group.map ClusterMember.ofEntry)
  distinct : (group.map IndexEntry.key).Nodup

theorem gathers_ofMembers (kind : ClusterKind) (key : String) {group : List IndexEntry}
    (hKeys : (group.map IndexEntry.key).Nodup) :
    (ofMembers kind key (group.map ClusterMember.ofEntry)).Gathers group := by
  refine ⟨members_ofMembers kind key ?_, hKeys⟩
  rw [List.map_map]
  exact hKeys

namespace Gathers

variable {cluster : Cluster} {group : List IndexEntry}

theorem ascending (h : cluster.Gathers group) : Ascending ClusterMember.key cluster.members := by
  rw [h.members]
  apply ascending_sortByKey
  rw [List.map_map]
  exact h.distinct

theorem mem_members (h : cluster.Gathers group) {member : ClusterMember} :
    member ∈ cluster.members ↔ ∃ entry ∈ group, ClusterMember.ofEntry entry = member := by
  rw [h.members, mem_sortByKey, List.mem_map]

theorem mem_splits (h : cluster.Gathers group) {split : Split} :
    split ∈ cluster.splits ↔ ∃ entry ∈ group, entry.split = split := by
  rw [Cluster.mem_splits]
  constructor
  · rintro ⟨member, hMember, hSplit⟩
    obtain ⟨entry, hEntry, rfl⟩ := h.mem_members.mp hMember
    exact ⟨entry, hEntry, hSplit⟩
  · rintro ⟨entry, hEntry, hSplit⟩
    exact ⟨_, h.mem_members.mpr ⟨entry, hEntry, rfl⟩, hSplit⟩

theorem mem_imagesIn (h : cluster.Gathers group) {split : Split} {image : String} :
    image ∈ cluster.imagesIn split ↔ image ∈ imagesOf group split := by
  simp only [Cluster.imagesIn, mem_imagesOf, List.mem_map, List.mem_filter, decide_eq_true_eq]
  constructor
  · rintro ⟨member, ⟨hMember, hSplit⟩, rfl⟩
    obtain ⟨entry, hEntry, rfl⟩ := h.mem_members.mp hMember
    exact ⟨entry, hEntry, hSplit, rfl⟩
  · rintro ⟨entry, hEntry, hSplit, rfl⟩
    exact ⟨_, ⟨h.mem_members.mpr ⟨entry, hEntry, rfl⟩, hSplit⟩, rfl⟩

theorem imagesOf_ascending (h : cluster.Gathers group) (split : Split) :
    Ascending id (imagesOf group split) := by
  have hDistinct := h.distinct
  rw [List.Nodup, List.pairwise_map] at hDistinct
  apply ascending_sortByKey
  rw [List.map_id, List.Nodup, List.pairwise_map]
  apply (hDistinct.filter _).imp_of_mem
  intro a b ha hb hNe hImage
  have hSplit : a.split = b.split :=
    (key_eq_of_mem_filter ha).trans (key_eq_of_mem_filter hb).symm
  exact hNe ((ImageKey.mk.injEq ..).mpr ⟨hSplit, hImage⟩)

/-- The images of a split are listed in ascending order, each once. -/
theorem imagesIn_eq (h : cluster.Gathers group) (split : Split) :
    cluster.imagesIn split = imagesOf group split := by
  have hImages : Ascending id (cluster.imagesIn split) := by
    rw [Cluster.imagesIn, Ascending, List.pairwise_map]
    apply (h.ascending.filter _).imp_of_mem
    intro a b ha hb hLess
    have hSplit : a.split = b.split :=
      (key_eq_of_mem_filter ha).trans (key_eq_of_mem_filter hb).symm
    exact (ImageKey.compare_image_of_split_eq (a := a.key) (b := b.key) hSplit).symm.trans hLess
  exact hImages.eq_of_mem_iff (h.imagesOf_ascending split) fun image => h.mem_imagesIn

/-- The identities of a lower and a higher split: first all of the one, then all of the other. -/
theorem identities_eq (h : cluster.Gathers group) {low high : Split}
    (hLess : compare low high = .lt) :
    cluster.identities [low, high] =
      (imagesOf group low).map (identityIn low) ++ (imagesOf group high).map (identityIn high) := by
  have hParts : (cluster.members.filter fun member => [low, high].contains member.split) =
      cluster.members.filter (fun member => member.split = low) ++
        cluster.members.filter (fun member => member.split = high) := by
    have hBoth : Ascending ClusterMember.key
        (cluster.members.filter (fun member => member.split = low) ++
          cluster.members.filter fun member => member.split = high) := by
      refine List.pairwise_append.mpr ⟨h.ascending.filter _, h.ascending.filter _, ?_⟩
      intro a ha b hb
      apply ImageKey.compare_eq_lt_of_split_lt
      change compare a.split b.split = .lt
      rw [key_eq_of_mem_filter ha, key_eq_of_mem_filter hb]
      exact hLess
    apply Ascending.eq_of_mem_iff (h.ascending.filter _) hBoth
    intro member
    simp only [List.mem_filter, List.mem_append, List.contains_iff_mem, List.mem_cons,
      List.not_mem_nil, or_false, decide_eq_true_eq, ← and_or_left]
  have hIdentities (split : Split) :
      (cluster.members.filter fun member => member.split = split).map ClusterMember.identity =
        (imagesOf group split).map (identityIn split) := by
    rw [← h.imagesIn_eq, Cluster.imagesIn, List.map_map]
    apply List.map_congr_left
    intro member hMember
    rw [← key_eq_of_mem_filter hMember]
    rfl
  rw [← hIdentities, ← hIdentities, ← List.map_append, ← hParts]
  rfl

end Gathers

end Cluster

end DatasetAudit
