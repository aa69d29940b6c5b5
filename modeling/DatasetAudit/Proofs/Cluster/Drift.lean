import DatasetAudit.Proofs.Cluster.Arrival
import Mathlib.Combinatorics.SimpleGraph.Connectivity.Connected
import Mathlib.Combinatorics.SimpleGraph.Paths
import Mathlib.Data.List.Permutation
import Mathlib.Tactic.Ring

/-! How far chains of alike entries drift, and what a larger threshold does to the clusters. Two
entries of a cluster are joined by a path that visits no entry twice, so it has fewer links than
the cluster has members, and each link moves the hash by the threshold at most. A larger threshold
keeps every link, so that clusters can only grow together. -/

namespace DatasetAudit

/-- Every member of the one cluster is a member of the other. -/
def Cluster.LiesIn (cluster other : Cluster) : Prop :=
  ∀ member ∈ cluster.members, member ∈ other.members

instance (cluster other : Cluster) : Decidable (cluster.LiesIn other) :=
  inferInstanceAs (Decidable (∀ member ∈ cluster.members, member ∈ other.members))

/-- Under a larger threshold a cluster lies in exactly one cluster of the list, which reaches at
least as far. -/
structure Cluster.GrowsInto (cluster : Cluster) (clusters : List Cluster) (coarser : Cluster) : Prop where
  only : (clusters.filter fun other => cluster.LiesIn other) = [coarser]
  reach : ∃ near far, cluster.maxDistance = some near ∧ coarser.maxDistance = some far ∧ near ≤ far

namespace Near

section Drift

variable {index : Index} {threshold : Nat} {group : List IndexEntry}

/-- The entries of a group as a graph, in which alike entries are joined. -/
def alikeGraph (group : List IndexEntry) (threshold : Nat) :
    SimpleGraph { entry // entry ∈ group } where
  Adj a b := a ≠ b ∧ Alike threshold a b
  symm := ⟨fun _ _ h => ⟨h.1.symm, h.2.symm⟩⟩
  loopless := ⟨fun _ h => h.1 rfl⟩

/-- Each link of a walk moves the hash by the threshold at most. -/
theorem hamming_le_of_walk {a b : { entry // entry ∈ group }}
    (walk : (alikeGraph group threshold).Walk a b) {x y : UInt64}
    (hx : a.1.perceptualHash = some x) (hy : b.1.perceptualHash = some y) :
    hamming x y ≤ threshold * walk.length := by
  induction walk generalizing x with
  | nil =>
      obtain rfl := Option.some.inj (hx.symm.trans hy)
      rw [hamming_self]
      exact Nat.zero_le _
  | @cons first next last hStep rest ih =>
      obtain ⟨-, distance, hLink, u, z, hu, hz, rfl⟩ := hStep
      obtain rfl := Option.some.inj (hx.symm.trans hu)
      calc hamming x y ≤ hamming x z + hamming z y := hamming_triangle x z y
        _ ≤ threshold + threshold * rest.length := Nat.add_le_add hLink (ih hz hy)
        _ = threshold * (rest.length + 1) := by ring

theorem IsComponent.mem_of_chained (h : IsComponent index threshold group) {a b : IndexEntry}
    (ha : a ∈ group) (hChain : Chained index threshold a b) : b ∈ group := by
  cases hChain with
  | refl => exact ha
  | tail hBefore hLast =>
      obtain ⟨first, _, _, rfl⟩ := h
      simp only [component, List.mem_filter, decide_eq_true_eq] at ha ⊢
      exact ⟨hLast.2.1, ha.2.trans (hBefore.tail hLast)⟩

/-- A chain between entries of a component stays inside of it. -/
theorem IsComponent.reachable (h : IsComponent index threshold group) {a b : IndexEntry}
    (ha : a ∈ group) (hb : b ∈ group) :
    (alikeGraph group threshold).Reachable ⟨a, ha⟩ ⟨b, hb⟩ := by
  have hChain := h.chained ha hb
  induction hChain with
  | refl => rfl
  | @tail c d hBefore hLast ih =>
      have hc : c ∈ group := h.mem_of_chained ha hBefore
      by_cases hSame : c = d
      · subst hSame
        exact ih hc
      · have hAdj : (alikeGraph group threshold).Adj ⟨c, hc⟩ ⟨d, hb⟩ :=
          ⟨fun hEq => hSame (congrArg Subtype.val hEq), hLast.2.2⟩
        exact (ih hc).trans hAdj.reachable

/-- The distance in a component is at most the threshold times the links of a path through all of
its entries. -/
theorem IsComponent.hamming_le (h : IsComponent index threshold group) {a b : IndexEntry}
    (ha : a ∈ group) (hb : b ∈ group) {x y : UInt64} (hx : a.perceptualHash = some x)
    (hy : b.perceptualHash = some y) : hamming x y ≤ threshold * (group.length - 1) := by
  classical
  obtain ⟨path, hPath⟩ := (h.reachable ha hb).exists_isPath
  have hShort : path.length < group.length := by
    calc path.length < Fintype.card { entry // entry ∈ group } := hPath.length_lt
      _ = group.toFinset.card := Fintype.card_of_subtype _ fun _ => List.mem_toFinset
      _ ≤ group.length := group.toFinset_card_le
  calc hamming x y ≤ threshold * path.length := hamming_le_of_walk path hx hy
    _ ≤ threshold * (group.length - 1) := Nat.mul_le_mul_left threshold (Nat.le_sub_one_of_lt hShort)

theorem Describes.length_members {cluster : Cluster} (h : Describes cluster group) :
    cluster.members.length = group.length := by
  rw [h.members, (sortByKey_perm _ _).length_eq, List.length_map]

/-- The members of a cluster are at most as far apart as a chain through all of them can lead. -/
theorem maxDistance_le_of_mem (hKeys : (index.entries.map IndexEntry.key).Nodup)
    {cluster : Cluster} (hCluster : cluster ∈ nearClusters index threshold) :
    ∃ distance, cluster.maxDistance = some distance ∧
      distance ≤ min 64 (threshold * (cluster.members.length - 1)) := by
  obtain ⟨group, hComponent, hDescribes, _⟩ := exists_component_of_mem hKeys hCluster
  obtain ⟨distance, hSome, ⟨a, ha, b, hb, _, x, y, hx, hy, rfl⟩, _⟩ := hDescribes.distance
  refine ⟨hamming x y, hSome, le_min (hamming_le x y) ?_⟩
  rw [hDescribes.length_members]
  exact hComponent.hamming_le ha hb hx hy

end Drift

section Coarser

variable {index : Index} {threshold larger : Nat}

theorem Alike.mono (hLE : threshold ≤ larger) {a b : IndexEntry} (h : Alike threshold a b) :
    Alike larger a b := by
  obtain ⟨distance, hLink, hApart⟩ := h
  exact ⟨distance, hLink.trans hLE, hApart⟩

theorem Chained.mono (hLE : threshold ≤ larger) {a b : IndexEntry}
    (h : Chained index threshold a b) : Chained index larger a b := by
  apply Relation.ReflTransGen.mono _ _ _ h
  rintro _ _ ⟨hA, hB, hAlike⟩
  exact ⟨hA, hB, hAlike.mono hLE⟩

theorem component_subset (hLE : threshold ≤ larger) (entry : IndexEntry) :
    component index threshold entry ⊆ component index larger entry := by
  intro other hOther
  simp only [component, List.mem_filter, decide_eq_true_eq] at hOther ⊢
  exact ⟨hOther.1, hOther.2.mono hLE⟩

theorem exists_growsInto (hKeys : (index.entries.map IndexEntry.key).Nodup)
    (hLE : threshold ≤ larger) {cluster : Cluster} (hCluster : cluster ∈ nearClusters index threshold) :
    ∃ coarser, cluster.GrowsInto (nearClusters index larger) coarser := by
  obtain ⟨group, hComponent, hDescribes, a, ha, b, hb, hContent⟩ :=
    exists_component_of_mem hKeys hCluster
  have hGathers := hComponent.gathers hKeys hDescribes
  obtain ⟨entry, hEntry, hSome, rfl⟩ := hComponent
  have hSubset : component index threshold entry ⊆ component index larger entry :=
    component_subset hLE entry
  -- The larger component has the two contents of the smaller one, so it makes a cluster too.
  obtain ⟨coarser, hCoarser, hDescribes'⟩ := exists_cluster_of_component hKeys
    (isComponent_component larger hEntry hSome) (hSubset ha) (hSubset hb) hContent
  have hGathers' := (isComponent_component larger hEntry hSome).gathers hKeys hDescribes'
  have hLies : cluster.LiesIn coarser := by
    intro member hMember
    obtain ⟨other, hOther, rfl⟩ := hGathers.mem_members.mp hMember
    exact hGathers'.mem_members.mpr ⟨other, hSubset hOther, rfl⟩
  refine ⟨coarser, ?_, ?_⟩
  · have hOnly : ∀ other ∈ nearClusters index larger, cluster.LiesIn other ↔ other = coarser := by
      intro other hOther
      constructor
      · intro hOtherLies
        have hMember := hGathers.mem_members.mpr ⟨a, ha, rfl⟩
        exact eq_of_mem_members hKeys hOther hCoarser (hOtherLies _ hMember) (hLies _ hMember) rfl
      · rintro rfl
        exact hLies
    have hNodup : ((nearClusters index larger).map id).Nodup := by
      rw [List.map_id]
      exact nearClusters_nodup larger hKeys
    rw [List.filter_congr fun other hOther => decide_eq_decide.mpr (hOnly other hOther)]
    exact filter_key_eq_singleton hNodup hCoarser
  · obtain ⟨near, hNear, ⟨c, hc, d, hd, -, hApart⟩, -⟩ := hDescribes.distance
    obtain ⟨far, hFar, -, hBound⟩ := hDescribes'.distance
    exact ⟨near, far, hNear, hFar, hBound c (hSubset hc) d (hSubset hd) near hApart⟩

end Coarser

/-- How thresholds shape the near clusters of an index: no cluster drifts further than its chain
of members allows, and a larger threshold only joins clusters. -/
structure Drifts (index : Index) : Prop where
  metric : IsMetric hamming
  bounded : ∀ threshold, ∀ cluster ∈ nearClusters index threshold,
    ∃ distance, cluster.maxDistance = some distance ∧
      distance ≤ min 64 (threshold * (cluster.members.length - 1))
  coarsens : ∀ threshold larger, threshold ≤ larger → ∀ cluster ∈ nearClusters index threshold,
    ∃ coarser, cluster.GrowsInto (nearClusters index larger) coarser

/-- Chained clusters drift at most by the threshold with each member behind the first. Under a larger
threshold each of them lies in exactly one cluster, which reaches at least as far. -/
theorem nearClusters_drift (index : Index) (hKeys : (index.entries.map IndexEntry.key).Nodup) :
    Drifts index where
  metric := isMetric_hamming
  bounded _ _ hCluster := maxDistance_le_of_mem hKeys hCluster
  coarsens _ _ hLE _ hCluster := exists_growsInto hKeys hLE hCluster

/-- The bound is reached: three members drift by twice the threshold. -/
theorem chain_drift : Drifts chain ∧ ∃ cluster ∈ nearClusters chain 4,
    cluster.maxDistance = some (4 * (cluster.members.length - 1)) ∧
      ∃ coarser, cluster.GrowsInto (nearClusters chain 40) coarser := by
  have hDrift : Drifts chain := nearClusters_drift chain (by decide)
  have hOne : nearClusters chain 4 =
      [⟨.near, "train:a.png", [⟨.train, "a.png", none⟩, ⟨.train, "b.png", none⟩,
        ⟨.val, "c.png", none⟩], some 8⟩] := by cbv
  have hMem := hOne ▸ List.mem_singleton_self _
  exact ⟨hDrift, _, hMem, rfl, hDrift.coarsens 4 40 (by decide) _ hMem⟩

end Near

end DatasetAudit
