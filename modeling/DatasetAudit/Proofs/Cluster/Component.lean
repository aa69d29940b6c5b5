import DatasetAudit.Proofs.Cluster.Near
import DatasetAudit.Proofs.Index.Sample
import Mathlib.Data.List.Forall2

/-! Near clusters are the connected components of the graph of alike entries, as far as a component
has two entries or more and more than one content. Over an index in order they come in the order of
their first entries. -/

namespace DatasetAudit.Near

open Classical in
/-- The entries that an entry is chained to, in the order of the index. -/
noncomputable def component (index : Index) (threshold : Nat) (entry : IndexEntry) :
    List IndexEntry :=
  index.entries.filter fun other => Chained index threshold entry other

/-- A connected component of the graph of alike entries. -/
def IsComponent (index : Index) (threshold : Nat) (group : List IndexEntry) : Prop :=
  ∃ entry ∈ index.entries, entry.perceptualHash.isSome ∧
    group = component index threshold entry

section Components

variable {index : Index} {threshold : Nat}

theorem kind_of_mem_nearClusters {cluster : Cluster} (h : cluster ∈ nearClusters index threshold) :
    cluster.kind = .near := by
  obtain ⟨group, _, hSome⟩ := List.mem_filterMap.mp h
  unfold cluster? at hSome
  split at hSome
  · obtain rfl := Option.some.inj hSome
    rfl
  · cases hSome

/-- Chains lead from hashed entries to hashed entries only. -/
theorem Chained.isSome {a b : IndexEntry} (h : Chained index threshold a b)
    (ha : a.perceptualHash.isSome) : b.perceptualHash.isSome := by
  cases h with
  | refl => exact ha
  | tail _ hStep =>
      obtain ⟨_, _, _, _, _, hash, _, hHash, _⟩ := hStep
      rw [hHash]
      rfl

open Classical in
theorem map_fst_filter_hashedEntries {P : IndexEntry → Prop}
    (h : ∀ entry, P entry → entry.perceptualHash.isSome) :
    ((hashedEntries index).filter fun item => P item.1).map (·.1) =
      index.entries.filter fun entry => P entry := by
  rw [hashedEntries, List.filter_filterMap, List.map_filterMap, ← List.filterMap_eq_filter]
  apply List.filterMap_congr
  intro entry _
  cases hHash : entry.perceptualHash with
  | none =>
      have hNot : ¬P entry := by
        intro hP
        have hSome := h entry hP
        rw [hHash] at hSome
        cases hSome
      simp [Option.guard, hNot]
  | some hash =>
      by_cases hP : P entry
      · simp [Option.guard, Option.filter, hP]
      · simp [Option.guard, Option.filter, hP]

/-- The linked groups, without the hashes, are the components with two entries or more. -/
theorem mem_map_linkedGroups (hKeys : (index.entries.map IndexEntry.key).Nodup)
    {group : List IndexEntry} :
    group ∈ (linkedGroups index threshold).map (·.map (·.1)) ↔
      IsComponent index threshold group ∧ 2 ≤ group.length := by
  classical
  have hForget (item : HashedEntry) (hItem : item ∈ hashedEntries index) :
      ((hashedEntries index).filter fun other => Chained index threshold item.1 other.1).map
        (·.1) = component index threshold item.1 := by
    have hSome : item.1.perceptualHash.isSome := by
      rw [(mem_hashedEntries.mp hItem).2]
      rfl
    exact map_fst_filter_hashedEntries fun entry hChain => hChain.isSome hSome
  simp only [List.mem_map, mem_linkedGroups hKeys]
  constructor
  · rintro ⟨_, ⟨⟨item, hItem, rfl⟩, hTwo⟩, rfl⟩
    obtain ⟨hEntry, hHash⟩ := mem_hashedEntries.mp hItem
    rw [List.length_map]
    exact ⟨⟨item.1, hEntry, hHash ▸ rfl, hForget item hItem⟩, hTwo⟩
  · rintro ⟨⟨entry, hEntry, hSome, rfl⟩, hTwo⟩
    obtain ⟨hash, hHash⟩ := Option.isSome_iff_exists.mp hSome
    have hItem : (entry, hash) ∈ hashedEntries index := mem_hashedEntries.mpr ⟨hEntry, hHash⟩
    refine ⟨_, ⟨⟨_, hItem, rfl⟩, ?_⟩, hForget _ hItem⟩
    rw [← hForget _ hItem, List.length_map] at hTwo
    exact hTwo

/-- The clusters are what the groups with distinct content describe, one by one. -/
theorem forall₂_filterMap_cluster? (groups : List (List HashedEntry))
    (h : ∀ group ∈ groups, hasDistinctContent group = true →
      ∃ cluster, cluster? group = some cluster ∧ Describes cluster (group.map (·.1))) :
    List.Forall₂ Describes (groups.filterMap cluster?)
      ((groups.filter hasDistinctContent).map (·.map (·.1))) := by
  induction groups with
  | nil => exact .nil
  | cons group rest ih =>
      obtain ⟨hGroup, hRest⟩ := List.forall_mem_cons.mp h
      by_cases hContent : hasDistinctContent group = true
      · obtain ⟨cluster, hCluster, hDescribes⟩ := hGroup hContent
        rw [List.filterMap_cons_some hCluster, List.filter_cons_of_pos hContent, List.map_cons]
        exact .cons hDescribes (ih hRest)
      · have hNone : cluster? group = none := if_neg hContent
        rw [List.filterMap_cons_none hNone, List.filter_cons_of_neg hContent]
        exact ih hRest

/-- With distinct keys, the near clusters are the components with two entries or more and more
than one content, in the order of their first entries. -/
theorem nearClusters_components (threshold : Nat)
    (hKeys : (index.entries.map IndexEntry.key).Nodup) :
    ∃ components : List (List IndexEntry),
      List.Forall₂ Describes (nearClusters index threshold) components ∧
      (∀ group, group ∈ components ↔ IsComponent index threshold group ∧ 2 ≤ group.length ∧
        ∃ a ∈ group, ∃ b ∈ group, a.contentHash ≠ b.contentHash) ∧
      ∀ R : IndexEntry → IndexEntry → Prop, index.entries.Pairwise R →
        components.Pairwise fun g g' => ∀ a ∈ g.head?, ∀ b ∈ g'.head?, R a b := by
  refine ⟨((linkedGroups index threshold).filter hasDistinctContent).map (·.map (·.1)),
    ?_, ?_, ?_⟩
  · rw [nearClusters_eq_filterMap]
    apply forall₂_filterMap_cluster?
    intro group hGroup hContent
    obtain ⟨⟨item, _, rfl⟩, hTwo⟩ := (mem_linkedGroups hKeys).mp hGroup
    apply cluster?_spec _ _ hTwo hContent
    · intro x hx
      exact (mem_hashedEntries.mp (List.mem_of_mem_filter hx)).2
    · rw [List.Nodup, List.pairwise_map] at hKeys ⊢
      exact (hashedEntries_pairwise hKeys).filter _
  · intro group
    rw [← and_assoc, ← mem_map_linkedGroups hKeys]
    simp only [List.mem_map, List.mem_filter, hasDistinctContent_iff]
    constructor
    · rintro ⟨items, ⟨hItems, x, hx, y, hy, hNe⟩, rfl⟩
      exact ⟨⟨items, hItems, rfl⟩, x.1, List.mem_map_of_mem hx, y.1, List.mem_map_of_mem hy, hNe⟩
    · rintro ⟨⟨items, hItems, rfl⟩, a, ha, b, hb, hNe⟩
      obtain ⟨x, hx, rfl⟩ := List.mem_map.mp ha
      obtain ⟨y, hy, rfl⟩ := List.mem_map.mp hb
      exact ⟨items, ⟨hItems, x, hx, y, hy, hNe⟩, rfl⟩
  · intro R hR
    rw [List.pairwise_map]
    apply ((linkedGroups_pairwise hR).filter _).imp
    intro g g' hHeads a ha b hb
    rw [List.head?_map] at ha hb
    obtain ⟨x, hx, rfl⟩ := Option.map_eq_some_iff.mp ha
    obtain ⟨y, hy, rfl⟩ := Option.map_eq_some_iff.mp hb
    exact hHeads x hx y hy

theorem exists_related {α β : Type} {R : α → β → Prop} {items : List α} {others : List β}
    (h : List.Forall₂ R items others) : ∀ item ∈ items, ∃ other ∈ others, R item other := by
  induction h with
  | nil => simp
  | cons hHead _ ih =>
      intro item hItem
      rcases List.mem_cons.mp hItem with rfl | hItem
      · exact ⟨_, List.mem_cons_self, hHead⟩
      · obtain ⟨other, hOther, hRelated⟩ := ih item hItem
        exact ⟨other, List.mem_cons_of_mem _ hOther, hRelated⟩

theorem exists_component_of_mem (hKeys : (index.entries.map IndexEntry.key).Nodup)
    {cluster : Cluster} (hCluster : cluster ∈ nearClusters index threshold) :
    ∃ group, IsComponent index threshold group ∧ Describes cluster group ∧
      ∃ a ∈ group, ∃ b ∈ group, a.contentHash ≠ b.contentHash := by
  obtain ⟨components, hDescribes, hMem, _⟩ := nearClusters_components threshold hKeys
  obtain ⟨group, hGroup, hCluster⟩ := exists_related hDescribes cluster hCluster
  obtain ⟨hComponent, _, hContent⟩ := (hMem group).mp hGroup
  exact ⟨group, hComponent, hCluster, hContent⟩

theorem exists_cluster_of_component (hKeys : (index.entries.map IndexEntry.key).Nodup)
    {group : List IndexEntry} (hComponent : IsComponent index threshold group)
    {a b : IndexEntry} (ha : a ∈ group) (hb : b ∈ group) (hNe : a.contentHash ≠ b.contentHash) :
    ∃ cluster ∈ nearClusters index threshold, Describes cluster group := by
  obtain ⟨components, hDescribes, hMem, _⟩ := nearClusters_components threshold hKeys
  have hTwo : 2 ≤ group.length :=
    two_le_length_of_ne ha hb fun he => hNe (congrArg IndexEntry.contentHash he)
  have hGroup : group ∈ components := (hMem group).mpr ⟨hComponent, hTwo, a, ha, b, hb, hNe⟩
  exact exists_related hDescribes.flip group hGroup

theorem isComponent_component (threshold : Nat) {entry : IndexEntry} (h : entry ∈ index.entries)
    (hSome : entry.perceptualHash.isSome) :
    IsComponent index threshold (component index threshold entry) :=
  ⟨entry, h, hSome, rfl⟩

theorem mem_component_self (threshold : Nat) {entry : IndexEntry} (h : entry ∈ index.entries) :
    entry ∈ component index threshold entry := by
  simp [component, h, Chained, Relation.ReflTransGen.refl]

theorem mem_component_of_alike {a b : IndexEntry} (ha : a ∈ index.entries)
    (hb : b ∈ index.entries) (hAlike : Alike threshold a b) :
    b ∈ component index threshold a := by
  simp only [component, List.mem_filter, decide_eq_true_eq]
  exact ⟨hb, .single ⟨ha, hb, hAlike⟩⟩

theorem IsComponent.gathers (hKeys : (index.entries.map IndexEntry.key).Nodup)
    {group : List IndexEntry} {cluster : Cluster} (hComponent : IsComponent index threshold group)
    (hDescribes : Describes cluster group) : cluster.Gathers group := by
  obtain ⟨_, _, _, rfl⟩ := hComponent
  exact ⟨hDescribes.members, hKeys.sublist (List.filter_sublist.map _)⟩

theorem IsComponent.subset {group : List IndexEntry} (h : IsComponent index threshold group) :
    ∀ entry ∈ group, entry ∈ index.entries := by
  obtain ⟨_, _, _, rfl⟩ := h
  exact fun _ hEntry => List.mem_of_mem_filter hEntry

theorem IsComponent.isSome {group : List IndexEntry} {entry : IndexEntry}
    (h : IsComponent index threshold group) (hEntry : entry ∈ group) :
    entry.perceptualHash.isSome := by
  obtain ⟨_, _, hSome, rfl⟩ := h
  simp only [component, List.mem_filter, decide_eq_true_eq] at hEntry
  exact hEntry.2.isSome hSome

theorem IsComponent.chained {group : List IndexEntry} {a b : IndexEntry}
    (h : IsComponent index threshold group) (ha : a ∈ group) (hb : b ∈ group) :
    Chained index threshold a b := by
  obtain ⟨_, _, _, rfl⟩ := h
  simp only [component, List.mem_filter, decide_eq_true_eq] at ha hb
  exact ha.2.symm.trans hb.2

/-- Components that share an entry are one and the same. -/
theorem IsComponent.eq_of_mem {group group' : List IndexEntry} {entry : IndexEntry}
    (h : IsComponent index threshold group) (h' : IsComponent index threshold group')
    (hMem : entry ∈ group) (hMem' : entry ∈ group') : group = group' := by
  obtain ⟨first, _, _, rfl⟩ := h
  obtain ⟨first', _, _, rfl⟩ := h'
  simp only [component, List.mem_filter, decide_eq_true_eq] at hMem hMem'
  have hChain : Chained index threshold first first' := hMem.2.trans hMem'.2.symm
  rw [component, component]
  congr 1
  funext other
  rw [decide_eq_decide]
  exact ⟨fun hOther => hChain.symm.trans hOther, fun hOther => hChain.trans hOther⟩

/-- The clusters, one by one, describe the components that count as near duplicates: those with
two entries or more and more than one content, a missing digest being a content of its own. The
components come in the order of their first entries, no two share an entry, and each is in order. -/
structure Clustering (index : Index) (threshold : Nat) (clusters : List Cluster)
    (components : List (List IndexEntry)) : Prop where
  describes : List.Forall₂ (fun cluster group => Describes cluster group ∧
    cluster.members = group.map ClusterMember.ofEntry) clusters components
  complete : ∀ group, group ∈ components ↔ IsComponent index threshold group ∧
    2 ≤ group.length ∧ ∃ a ∈ group, ∃ b ∈ group, a.contentHash ≠ b.contentHash
  ordered : components.Pairwise fun g g' =>
    ∀ a ∈ g.head?, ∀ b ∈ g'.head?, compare a.key b.key = .lt
  disjoint : components.Pairwise List.Disjoint
  ascending : ∀ group ∈ components, Ascending IndexEntry.key group

/-- For every threshold, the banded search over an index in order finds exactly what comparing all
pairs of its entries would find. -/
theorem nearClusters_clustering (index : Index) (threshold : Nat)
    (hOrder : Ascending IndexEntry.key index.entries) :
    ∃ components, Clustering index threshold (nearClusters index threshold) components := by
  obtain ⟨components, hDescribes, hMem, hPairwise⟩ :=
    nearClusters_components threshold hOrder.nodup
  have hHeads := hPairwise _ hOrder
  have hSorted : ∀ group ∈ components, Ascending IndexEntry.key group := by
    intro group hGroup
    obtain ⟨_, _, _, rfl⟩ := ((hMem group).mp hGroup).1
    exact List.Pairwise.filter _ hOrder
  have hBoth := ((List.forall₂_and_left components _).mpr ⟨hSorted, hDescribes.flip⟩).flip
  refine ⟨components, hBoth.imp ?_, hMem, hHeads, ?_, hSorted⟩
  · rintro cluster group ⟨hAscending, hGroup⟩
    refine ⟨hGroup, hGroup.members.trans (sortByKey_eq_self ?_)⟩
    rw [Ascending, List.pairwise_map]
    exact hAscending
  · apply hHeads.imp_of_mem
    intro group group' hGroup hGroup' hLess entry hEntry hEntry'
    obtain ⟨hComponent, hTwo, _⟩ := (hMem group).mp hGroup
    have hSame := hComponent.eq_of_mem ((hMem group').mp hGroup').1 hEntry hEntry'
    subst hSame
    obtain ⟨first, rest, rfl⟩ := List.exists_cons_of_length_pos (Nat.lt_of_lt_of_le (by simp) hTwo)
    have hSelf := hLess first rfl first rfl
    rw [Std.ReflOrd.compare_self] at hSelf
    cases hSelf

end Components

/-- Three images that hang together though the outer two are eight bits apart, one of them without
a digest, and two more with the same bytes. -/
def chain : Index := .ofEntries
  [.ofHashes .train "a.png" (some "ha") (some 0x00),
   .ofHashes .train "b.png" (some "hb") (some 0x0F),
   .ofHashes .val "c.png" none (some 0xFF),
   .ofHashes .test "d.png" (some "hd") (some 0xFFFF000000000000),
   .ofHashes .test "e.png" (some "hd") (some 0xFFFF000000000000)]

theorem chain_clustering : Ascending IndexEntry.key chain.entries ∧
    ∃ components, Clustering chain 4 (nearClusters chain 4) components := by
  have hOrder : Ascending IndexEntry.key chain.entries := by
    rw [Ascending]
    decide
  exact ⟨hOrder, nearClusters_clustering chain 4 hOrder⟩

example : (nearClusters chain 4).map (fun c => (c.key, c.members.length, c.maxDistance)) =
    [("train:a.png", 3, some 8)] := by cbv

end DatasetAudit.Near
