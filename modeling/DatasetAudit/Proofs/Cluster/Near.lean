import DatasetAudit.Proofs.Cluster.Basic
import DatasetAudit.Proofs.Cluster.Linking

/-! Alike entries, and the clusters that groups of them make. The groups that the search over
buckets leaves are those that chains of alike entries connect, and the cluster of a group tells how
far apart its entries are at most. -/

namespace DatasetAudit.Near

/-- Two entries have perceptual hashes, and these differ in `distance` bits. -/
def Apart (a b : IndexEntry) (distance : Nat) : Prop :=
  ∃ x y, a.perceptualHash = some x ∧ b.perceptualHash = some y ∧ hamming x y = distance

/-- Two entries have perceptual hashes that differ in at most `threshold` bits. -/
def Alike (threshold : Nat) (a b : IndexEntry) : Prop :=
  ∃ distance ≤ threshold, Apart a b distance

theorem Alike.symm {threshold : Nat} {a b : IndexEntry} (h : Alike threshold a b) :
    Alike threshold b a := by
  obtain ⟨distance, hLE, x, y, hx, hy, hEq⟩ := h
  exact ⟨distance, hLE, y, x, hy, hx, hamming_comm x y ▸ hEq⟩

theorem Alike.isSome {threshold : Nat} {a b : IndexEntry} (h : Alike threshold a b) :
    a.perceptualHash.isSome := by
  obtain ⟨_, _, x, _, hx, _⟩ := h
  rw [hx]
  rfl

/-- A chain of entries of the index leads from one to the other, each alike to the next. -/
def Chained (index : Index) (threshold : Nat) : IndexEntry → IndexEntry → Prop :=
  Relation.ReflTransGen fun a b =>
    a ∈ index.entries ∧ b ∈ index.entries ∧ Alike threshold a b

theorem Chained.symm {index : Index} {threshold : Nat} {a b : IndexEntry}
    (h : Chained index threshold a b) : Chained index threshold b a := by
  induction h with
  | refl => exact .refl
  | tail _ hStep ih => exact .head ⟨hStep.2.1, hStep.1, hStep.2.2.symm⟩ ih

section Entries

variable {index : Index} {threshold : Nat}

theorem mem_hashedEntries {item : HashedEntry} :
    item ∈ hashedEntries index ↔
      item.1 ∈ index.entries ∧ item.1.perceptualHash = some item.2 := by
  obtain ⟨entry, hash⟩ := item
  simp only [hashedEntries, List.mem_filterMap, Option.map_eq_some_iff, Prod.mk.injEq]
  constructor
  · rintro ⟨_, hEntry, _, hHash, rfl, rfl⟩
    exact ⟨hEntry, hHash⟩
  · rintro ⟨hEntry, hHash⟩
    exact ⟨entry, hEntry, hash, hHash, rfl, rfl⟩

theorem hashedEntries_pairwise {R : IndexEntry → IndexEntry → Prop}
    (h : index.entries.Pairwise R) : (hashedEntries index).Pairwise fun a b => R a.1 b.1 := by
  apply h.filterMap
  intro a b hR x hx y hy
  obtain ⟨_, _, rfl⟩ := Option.map_eq_some_iff.mp hx
  obtain ⟨_, _, rfl⟩ := Option.map_eq_some_iff.mp hy
  exact hR

theorem closeAt_iff_alike {p q : Nat} {x y : HashedEntry} (hx : (hashedEntries index)[p]? = some x)
    (hy : (hashedEntries index)[q]? = some y) :
    CloseAt ((hashedEntries index).map (·.2)) threshold p q ↔ Alike threshold x.1 y.1 := by
  have hHashX := (mem_hashedEntries.mp (List.mem_of_getElem? hx)).2
  have hHashY := (mem_hashedEntries.mp (List.mem_of_getElem? hy)).2
  simp [CloseAt, Alike, Apart, hx, hy, hHashX, hHashY]

/-- With distinct keys an entry stands at one position only. -/
theorem position_unique (hKeys : (index.entries.map IndexEntry.key).Nodup) {p q : Nat}
    {x y : HashedEntry} (hx : (hashedEntries index)[p]? = some x)
    (hy : (hashedEntries index)[q]? = some y) (hEq : x.1 = y.1) : p = q := by
  have hNodup : ((hashedEntries index).map (·.1.key)).Nodup := by
    rw [List.Nodup, List.pairwise_map] at hKeys ⊢
    exact hashedEntries_pairwise hKeys
  have hLt : p < ((hashedEntries index).map (·.1.key)).length := by
    rw [List.length_map]
    exact (List.getElem?_eq_some_iff.mp hx).1
  apply (List.getElem?_inj hLt hNodup).mp
  simp [hx, hy, hEq]

/-- Chains of positions are chains of entries. -/
theorem joinedAt_iff_chained (hKeys : (index.entries.map IndexEntry.key).Nodup) {p q : Nat}
    {x y : HashedEntry} (hx : (hashedEntries index)[p]? = some x)
    (hy : (hashedEntries index)[q]? = some y) :
    JoinedAt ((hashedEntries index).map (·.2)) threshold p q ↔
      Chained index threshold x.1 y.1 := by
  have hSymm : Std.Symm (CloseAt ((hashedEntries index).map (·.2)) threshold) :=
    ⟨fun _ _ h => h.symm⟩
  rw [JoinedAt, Relation.EqvGen.eqvGen_eq_reflTransGen]
  constructor
  · intro h
    induction h generalizing y with
    | refl =>
        rw [hx] at hy
        cases hy
        exact .refl
    | @tail u v _ hClose ih =>
        have hU : u < (hashedEntries index).length := by
          obtain ⟨_, _, hu, _⟩ := hClose
          simpa using (List.getElem?_eq_some_iff.mp hu).1
        have hMiddle := List.getElem?_eq_getElem hU
        refine (ih hMiddle).tail ⟨?_, ?_, (closeAt_iff_alike hMiddle hy).mp hClose⟩
        · exact (mem_hashedEntries.mp (List.mem_of_getElem? hMiddle)).1
        · exact (mem_hashedEntries.mp (List.mem_of_getElem? hy)).1
  · intro h
    generalize hEntry : y.1 = entry at h
    induction h generalizing y q with
    | refl =>
        rw [position_unique hKeys hx hy hEntry.symm]
    | @tail middle last _ hStep ih =>
        subst hEntry
        have ⟨hMem, _, _, _, hash, _, hHash, _⟩ := hStep
        obtain ⟨u, hMiddle⟩ := List.getElem?_of_mem
          (mem_hashedEntries.mpr ⟨hMem, hHash⟩ : (middle, hash) ∈ hashedEntries index)
        exact (ih hMiddle rfl).tail ((closeAt_iff_alike hMiddle hy).mpr hStep.2.2)

/-- Looking up all positions gives the list back. -/
theorem filterMap_getElem?_range {α : Type} (items : List α) :
    (List.range items.length).filterMap (items[·]?) = items := by
  induction items with
  | nil => rfl
  | cons first rest ih =>
      rw [List.length_cons, List.range_succ_eq_map, List.filterMap_cons, List.filterMap_map]
      simpa [Function.comp_def] using ih

/-- What the positions that pass a test hold are the items that pass it. -/
theorem filterMap_getElem?_filter {α : Type} (items : List α) {onPositions : Nat → Bool}
    {onItems : α → Bool} (h : ∀ p x, items[p]? = some x → onPositions p = onItems x) :
    ((List.range items.length).filter onPositions).filterMap (items[·]?) =
      items.filter onItems := by
  conv_rhs => rw [← filterMap_getElem?_range items]
  rw [List.filter_filterMap, List.filterMap_filter]
  apply List.filterMap_congr
  intro p _
  cases hx : items[p]? with
  | none => simp
  | some x => simp [h p x hx, Option.filter]

theorem length_filterMap_getElem? {α : Type} (items : List α) (positions : List Nat)
    (h : ∀ p ∈ positions, p < items.length) :
    (positions.filterMap (items[·]?)).length = positions.length := by
  induction positions with
  | nil => rfl
  | cons p rest ih =>
      obtain ⟨hp, hRest⟩ := List.forall_mem_cons.mp h
      rw [List.filterMap_cons, List.getElem?_eq_getElem hp]
      simp [ih hRest]

/-- The groups of joined positions as groups of entries with their hashes. -/
def linkedGroups (index : Index) (threshold : Nat) : List (List HashedEntry) :=
  (groups ((hashedEntries index).map (·.2)) threshold).map fun group =>
    group.filterMap ((hashedEntries index)[·]?)

theorem nearClusters_eq_filterMap :
    nearClusters index threshold = (linkedGroups index threshold).filterMap cluster? := by
  simp [nearClusters, linkedGroups, List.filterMap_map]

open Classical in
/-- With distinct keys a linked group holds everything that is chained to one entry. -/
theorem mem_linkedGroups (hKeys : (index.entries.map IndexEntry.key).Nodup)
    {group : List HashedEntry} :
    group ∈ linkedGroups index threshold ↔
      (∃ item ∈ hashedEntries index, group = (hashedEntries index).filter
        fun other => Chained index threshold item.1 other.1) ∧ 2 ≤ group.length := by
  have hLength : ((hashedEntries index).map (·.2)).length = (hashedEntries index).length :=
    List.length_map _
  have hLookup {p : Nat} {x : HashedEntry} (hx : (hashedEntries index)[p]? = some x) :
      ((List.range (hashedEntries index).length).filter
        fun q => JoinedAt ((hashedEntries index).map (·.2)) threshold p q).filterMap
          ((hashedEntries index)[·]?) =
        (hashedEntries index).filter fun other => Chained index threshold x.1 other.1 :=
    filterMap_getElem?_filter _ fun q y hy => by simp only [joinedAt_iff_chained hKeys hx hy]
  have hSize (p : Nat) := length_filterMap_getElem? (hashedEntries index)
    ((List.range (hashedEntries index).length).filter
      fun q => JoinedAt ((hashedEntries index).map (·.2)) threshold p q)
    fun q hq => List.mem_range.mp (List.mem_of_mem_filter hq)
  simp only [linkedGroups, List.mem_map, mem_groups, hLength]
  constructor
  · rintro ⟨_, ⟨⟨p, hp, rfl⟩, hTwo⟩, rfl⟩
    have hx := List.getElem?_eq_getElem hp
    refine ⟨⟨_, List.mem_of_getElem? hx, hLookup hx⟩, ?_⟩
    rw [hSize]
    exact hTwo
  · rintro ⟨⟨item, hItem, rfl⟩, hTwo⟩
    obtain ⟨p, hx⟩ := List.getElem?_of_mem hItem
    refine ⟨_, ⟨⟨p, (List.getElem?_eq_some_iff.mp hx).1, rfl⟩, ?_⟩, hLookup hx⟩
    rw [← hSize, hLookup hx]
    exact hTwo

/-- The groups come in the order of their first entries. -/
theorem linkedGroups_pairwise {R : IndexEntry → IndexEntry → Prop}
    (h : index.entries.Pairwise R) :
    (linkedGroups index threshold).Pairwise
      fun g g' => ∀ a ∈ g.head?, ∀ b ∈ g'.head?, R a.1 b.1 := by
  have hFirst : ∀ group ∈ groups ((hashedEntries index).map (·.2)) threshold,
      (group.filterMap ((hashedEntries index)[·]?)).head? =
        (hashedEntries index)[group.headD 0]? := by
    intro group hGroup
    obtain ⟨⟨p, _, hEq⟩, hTwo⟩ := mem_groups.mp hGroup
    cases group with
    | nil => simp at hTwo
    | cons first rest =>
        have hMem : first ∈ first :: rest := List.mem_cons_self
        rw [hEq] at hMem
        have hLt := List.mem_range.mp (List.mem_of_mem_filter hMem)
        rw [List.length_map] at hLt
        rw [List.filterMap_cons, List.headD_cons, List.getElem?_eq_getElem hLt]
        rfl
  rw [linkedGroups, List.pairwise_map]
  apply groups_pairwise.imp_of_mem
  intro g g' hg hg' hLess a ha b hb
  rw [hFirst g hg] at ha
  rw [hFirst g' hg'] at hb
  obtain ⟨hLtA, rfl⟩ := List.getElem?_eq_some_iff.mp ha
  obtain ⟨hLtB, rfl⟩ := List.getElem?_eq_some_iff.mp hb
  exact List.pairwise_iff_getElem.mp (hashedEntries_pairwise h) _ _ hLtA hLtB hLess

end Entries

section Clusters

variable {group : List HashedEntry}

theorem hasDistinctContent_iff :
    hasDistinctContent group = true ↔
      ∃ x ∈ group, ∃ y ∈ group, x.1.contentHash ≠ y.1.contentHash := by
  cases group with
  | nil => simp [hasDistinctContent]
  | cons first rest =>
      obtain ⟨entry, hash⟩ := first
      simp only [hasDistinctContent, List.any_eq_true, bne_iff_ne]
      constructor
      · rintro ⟨x, hx, hNe⟩
        exact ⟨x, List.mem_cons_of_mem _ hx, _, List.mem_cons_self, hNe⟩
      · rintro ⟨x, hx, y, hy, hNe⟩
        -- One of the two differs from the first entry, as they differ from each other.
        by_cases hFirst : x.1.contentHash = entry.contentHash
        · have hOther : y.1.contentHash ≠ entry.contentHash := fun he => hNe (hFirst.trans he.symm)
          rcases List.mem_cons.mp hy with rfl | hy
          · exact absurd rfl hOther
          · exact ⟨y, hy, hOther⟩
        · rcases List.mem_cons.mp hx with rfl | hx
          · exact absurd rfl hFirst
          · exact ⟨x, hx, hFirst⟩

/-- The largest distance is that of two entries, and no two are further apart. -/
theorem maxDistance?_spec (hKeys : (group.map (·.1.key)).Nodup) (hTwo : 2 ≤ group.length) :
    ∃ distance, maxDistance? (group.map (·.2)) = some distance ∧
      (∃ x ∈ group, ∃ y ∈ group, x.1.key ≠ y.1.key ∧ hamming x.2 y.2 = distance) ∧
      ∀ x ∈ group, ∀ y ∈ group, hamming x.2 y.2 ≤ distance := by
  have hMax : maxDistance? (group.map (·.2)) =
      ((pairs group).map fun pair => hamming pair.1.2 pair.2.2).max? := by
    rw [maxDistance?, pairs_map, List.map_map]
    rfl
  obtain ⟨distance, hSome⟩ : ∃ distance, maxDistance? (group.map (·.2)) = some distance := by
    match group, hTwo with
    | _ :: _ :: _, _ => exact ⟨_, rfl⟩
  obtain ⟨hMem, hBound⟩ := List.max?_eq_some_iff.mp (hMax.symm.trans hSome)
  refine ⟨distance, hSome, ?_, ?_⟩
  · obtain ⟨⟨x, y⟩, hPair, hDistance⟩ := List.mem_map.mp hMem
    have hSub := sublist_of_mem_pairs hPair
    refine ⟨x, hSub.subset (by simp), y, hSub.subset (by simp), ?_, hDistance⟩
    rw [List.Nodup, List.pairwise_map] at hKeys
    exact List.rel_of_pairwise_cons (hKeys.sublist hSub) List.mem_cons_self
  · intro x hx y hy
    by_cases hEq : x = y
    · rw [hEq, hamming_self]
      exact Nat.zero_le _
    · rcases mem_pairs_or hx hy hEq with hPair | hPair
      · exact hBound _ (List.mem_map.mpr ⟨_, hPair, rfl⟩)
      · rw [hamming_comm]
        exact hBound _ (List.mem_map.mpr ⟨_, hPair, rfl⟩)

/-- What a near cluster says about the entries in it. Its members are the entries in the order of
their keys, and its distance is the largest one between any two of them, linked or not. -/
structure Describes (cluster : Cluster) (group : List IndexEntry) : Prop where
  kind : cluster.kind = .near
  key : group.head?.map IndexEntry.identity = some cluster.key
  members : cluster.members = sortByKey ClusterMember.key (group.map ClusterMember.ofEntry)
  distance : ∃ distance, cluster.maxDistance = some distance ∧
    (∃ a ∈ group, ∃ b ∈ group, a.key ≠ b.key ∧ Apart a b distance) ∧
    ∀ a ∈ group, ∀ b ∈ group, ∀ other, Apart a b other → other ≤ distance

/-- A group becomes a cluster if its entries differ in content. -/
theorem cluster?_spec (hHashes : ∀ x ∈ group, x.1.perceptualHash = some x.2)
    (hKeys : (group.map (·.1.key)).Nodup) (hTwo : 2 ≤ group.length)
    (hContent : hasDistinctContent group = true) :
    ∃ cluster, cluster? group = some cluster ∧ Describes cluster (group.map (·.1)) := by
  obtain ⟨distance, hSome, ⟨x, hx, y, hy, hNe, hDistance⟩, hBound⟩ := maxDistance?_spec hKeys hTwo
  obtain ⟨first, rest, rfl⟩ := List.exists_cons_of_length_pos (Nat.lt_of_lt_of_le (by simp) hTwo)
  let members := (first :: rest).map fun x => ClusterMember.ofEntry x.1
  let key := (members.head?.map ClusterMember.identity).getD ""
  refine ⟨{ Cluster.ofMembers .near key members with
      maxDistance := maxDistance? ((first :: rest).map (·.2)) },
    if_pos hContent, rfl, rfl, ?_, distance, hSome, ?_, ?_⟩
  · have hMembers : (members.map ClusterMember.key).Nodup := by
      rw [List.map_map]
      exact hKeys
    rw [List.map_map]
    exact Cluster.members_ofMembers .near key hMembers
  · exact ⟨x.1, List.mem_map_of_mem hx, y.1, List.mem_map_of_mem hy, hNe, x.2, y.2,
      hHashes x hx, hHashes y hy, hDistance⟩
  · intro a ha b hb other hApart
    obtain ⟨x, hx, rfl⟩ := List.mem_map.mp ha
    obtain ⟨y, hy, rfl⟩ := List.mem_map.mp hb
    obtain ⟨hashX, hashY, hHashX, hHashY, rfl⟩ := hApart
    rw [hHashes x hx] at hHashX
    rw [hHashes y hy] at hHashY
    cases hHashX
    cases hHashY
    exact hBound x hx y hy

end Clusters

end DatasetAudit.Near
