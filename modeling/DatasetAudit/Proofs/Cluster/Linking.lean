import DatasetAudit.Cluster.Near
import DatasetAudit.Proofs.Cluster.Bands
import DatasetAudit.Proofs.Cluster.DisjointSets

/-! The search for close hashes, by positions. It looks at few pairs only, those that share a bucket
and are not joined yet; the groups are nevertheless the classes that all close pairs generate. -/

namespace DatasetAudit.Near

open DisjointSets (Represents)

/-- Pairs keep the order of the list. -/
theorem sublist_of_mem_pairs {α : Type} {items : List α} {a b : α} (h : (a, b) ∈ pairs items) :
    [a, b].Sublist items := by
  induction items with
  | nil => cases h
  | cons first rest ih =>
      rcases List.mem_append.mp h with h | h
      · obtain ⟨_, hRest, hEq⟩ := List.mem_map.mp h
        cases hEq
        exact (List.singleton_sublist.mpr hRest).cons_cons a
      · exact (ih h).cons first

/-- Two different items make a pair in one order or the other. -/
theorem mem_pairs_or {α : Type} {items : List α} {a b : α} (ha : a ∈ items) (hb : b ∈ items)
    (hNe : a ≠ b) : (a, b) ∈ pairs items ∨ (b, a) ∈ pairs items := by
  induction items with
  | nil => cases ha
  | cons first rest ih =>
      simp only [pairs, List.mem_append, List.mem_map]
      rcases List.mem_cons.mp ha with rfl | hRestA <;> rcases List.mem_cons.mp hb with rfl | hRestB
      · exact absurd rfl hNe
      · exact .inl (.inl ⟨b, hRestB, rfl⟩)
      · exact .inr (.inl ⟨a, hRestA, rfl⟩)
      · exact (ih hRestA hRestB).imp .inr .inr

/-- In an ascending list the pairs are those of its numbers that ascend. -/
theorem mem_pairs {positions : List Nat} (h : positions.Pairwise (· < ·)) {p q : Nat} :
    (p, q) ∈ pairs positions ↔ p ∈ positions ∧ q ∈ positions ∧ p < q := by
  have hOrder {u v : Nat} (hPair : (u, v) ∈ pairs positions) : u < v :=
    List.rel_of_pairwise_cons (h.sublist (sublist_of_mem_pairs hPair)) List.mem_cons_self
  constructor
  · intro hPair
    have hSub := (sublist_of_mem_pairs hPair).subset
    exact ⟨hSub (by simp), hSub (by simp), hOrder hPair⟩
  · rintro ⟨hp, hq, hLess⟩
    rcases mem_pairs_or hp hq hLess.ne with hPair | hPair
    · exact hPair
    · exact absurd (hOrder hPair) hLess.asymm

theorem pairs_map {α β : Type} (f : α → β) (items : List α) :
    pairs (items.map f) = (pairs items).map (Prod.map f f) := by
  induction items with
  | nil => rfl
  | cons first rest ih => simp [pairs, ih, Function.comp_def]

/-- The hashes at two positions differ in at most `threshold` bits. -/
def CloseAt (hashes : List UInt64) (threshold p q : Nat) : Prop :=
  ∃ a b, hashes[p]? = some a ∧ hashes[q]? = some b ∧ hamming a b ≤ threshold

theorem CloseAt.symm {hashes : List UInt64} {threshold p q : Nat}
    (h : CloseAt hashes threshold p q) : CloseAt hashes threshold q p := by
  obtain ⟨a, b, ha, hb, hLE⟩ := h
  exact ⟨b, a, hb, ha, hamming_comm a b ▸ hLE⟩

section Search

variable {hashes : List UInt64} {threshold : Nat}

/-- Looking at a pair of positions adds its edge if their hashes are close. -/
theorem represents_link (threshold : Nat) {sets : DisjointSets} {edges : Nat → Nat → Prop}
    {p q : Nat} (h : Represents sets hashes.length edges) (hp : p < hashes.length) (hq : q < hashes.length) :
    Represents (link hashes.toArray threshold sets (p, q)) hashes.length
      fun u v => edges u v ∨ ((u, v) = (p, q) ∧ CloseAt hashes threshold u v) := by
  have hClose : hamming (hashes.toArray.getD p 0) (hashes.toArray.getD q 0) ≤ threshold ↔
      CloseAt hashes threshold p q := by
    simp [CloseAt, hp, hq]
  have hEdge (hYes : CloseAt hashes threshold p q) :
      (fun u v => edges u v ∨ ((u, v) = (p, q) ∧ CloseAt hashes threshold u v)) =
        fun u v => edges u v ∨ (u = p ∧ v = q) := by
    funext u v
    simp only [Prod.mk.injEq, eq_iff_iff]
    refine or_congr_right ⟨And.left, ?_⟩
    rintro ⟨rfl, rfl⟩
    exact ⟨⟨rfl, rfl⟩, hYes⟩
  have hNone (hNo : ¬CloseAt hashes threshold p q) :
      (fun u v => edges u v ∨ ((u, v) = (p, q) ∧ CloseAt hashes threshold u v)) = edges := by
    funext u v
    simp only [Prod.mk.injEq, eq_iff_iff, or_iff_left_iff_imp]
    rintro ⟨⟨rfl, rfl⟩, hYes⟩
    exact absurd hYes hNo
  have hFirst := h.find hp
  have hSecond := hFirst.find hq
  have hRoot : (sets.find p).1 = ((sets.find p).2.find q).1 ↔ Relation.EqvGen edges p q := by
    rw [h.find_find hp]
    exact h.find_eq_iff
  rw [link]
  dsimp only
  split
  · rename_i hEq
    by_cases hYes : CloseAt hashes threshold p q
    · rw [hEdge hYes]
      exact hSecond.of_eqvGen (hRoot.mp hEq)
    · rw [hNone hYes]
      exact hSecond
  · split
    · rename_i hLE
      rw [hEdge (hClose.mp hLE)]
      exact hSecond.union hp hq
    · rename_i hLE
      rw [hNone fun hYes => hLE (hClose.mpr hYes)]
      exact hSecond

/-- A run over pairs of positions adds the edges of all close ones. -/
theorem represents_links (threshold : Nat) (pairs : List (Nat × Nat)) {sets : DisjointSets}
    {edges : Nat → Nat → Prop} (h : Represents sets hashes.length edges)
    (hPairs : ∀ pair ∈ pairs, pair.1 < hashes.length ∧ pair.2 < hashes.length) :
    Represents (pairs.foldl (link hashes.toArray threshold) sets) hashes.length
      fun u v => edges u v ∨ ((u, v) ∈ pairs ∧ CloseAt hashes threshold u v) := by
  induction pairs generalizing sets edges with
  | nil => simpa using h
  | cons pair rest ih =>
      obtain ⟨hFirst, hRest⟩ := List.forall_mem_cons.mp hPairs
      have hRun := ih (represents_link threshold h hFirst.1 hFirst.2) hRest
      rw [List.foldl_cons]
      convert hRun using 3 with u v
      rw [List.mem_cons, or_and_right, or_assoc]

/-- Positions that a chain of close hashes joins. -/
def JoinedAt (hashes : List UInt64) (threshold : Nat) : Nat → Nat → Prop :=
  Relation.EqvGen (CloseAt hashes threshold)

/-- The pairs of positions that are looked at. -/
def candidates (hashes : List UInt64) (threshold : Nat) : List (Nat × Nat) :=
  (Bands.buckets hashes threshold).flatMap pairs

theorem linkedSets_eq_foldl : linkedSets hashes threshold =
    (candidates hashes threshold).foldl (link hashes.toArray threshold)
      (DisjointSets.singletons hashes.length) := by
  rw [candidates, List.foldl_flatMap]
  rfl

theorem mem_candidates {pair : Nat × Nat} : pair ∈ candidates hashes threshold ↔
    ∃ bucket ∈ Bands.buckets hashes threshold,
      pair.1 ∈ bucket ∧ pair.2 ∈ bucket ∧ pair.1 < pair.2 := by
  rw [candidates, List.mem_flatMap]
  exact exists_congr fun bucket => and_congr_right fun h => mem_pairs (Bands.bucket_pairwise_lt h)

theorem lt_length_of_mem_candidates {pair : Nat × Nat} (h : pair ∈ candidates hashes threshold) :
    pair.1 < hashes.length ∧ pair.2 < hashes.length := by
  obtain ⟨bucket, hBucket, hFirst, hSecond, _⟩ := mem_candidates.mp h
  exact ⟨Bands.lt_length_of_mem_bucket hBucket hFirst, Bands.lt_length_of_mem_bucket hBucket hSecond⟩

/-- The search by buckets finds the sets that comparing all pairs would find. -/
theorem linkedSets_find_eq_iff {p q : Nat} :
    ((linkedSets hashes threshold).find p).1 = ((linkedSets hashes threshold).find q).1 ↔
      JoinedAt hashes threshold p q := by
  have hRun := represents_links threshold (candidates hashes threshold)
    (Represents.singletons hashes.length) fun _ => lt_length_of_mem_candidates
  rw [← linkedSets_eq_foldl] at hRun
  refine hRun.find_eq_iff.trans ⟨fun h => Relation.EqvGen.mono ?_ _ _ h, fun h => ?_⟩
  · rintro u v (h | ⟨_, hClose⟩)
    · exact h.elim
    · exact hClose
  · -- A close pair was looked at in one order, unless it is one position twice.
    have hFound {u v : Nat} (hLess : u < v) (hClose : CloseAt hashes threshold u v) :
        (u, v) ∈ candidates hashes threshold := by
      obtain ⟨a, b, ha, hb, hLE⟩ := hClose
      obtain ⟨bucket, hBucket, hu, hv⟩ := Bands.exists_bucket ha hb hLE
      exact mem_candidates.mpr ⟨bucket, hBucket, hu, hv, hLess⟩
    induction h with
    | rel u v hClose =>
        rcases Nat.lt_trichotomy u v with hLess | rfl | hLess
        · exact .rel _ _ (.inr ⟨hFound hLess hClose, hClose⟩)
        · exact .refl _
        · exact .symm _ _ (.rel _ _ (.inr ⟨hFound hLess hClose.symm, hClose.symm⟩))
    | refl u => exact .refl u
    | symm u v _ ih => exact .symm _ _ ih
    | trans u v w _ _ ih ih' => exact .trans _ _ _ ih ih'

open Classical in
/-- The groups are the classes of joined positions with two positions or more. -/
theorem mem_groups {group : List Nat} :
    group ∈ groups hashes threshold ↔
      (∃ p < hashes.length, group = (List.range hashes.length).filter
        fun q => JoinedAt hashes threshold p q) ∧ 2 ≤ group.length := by
  have hClass (p : Nat) : (List.range hashes.length).filter (fun q => JoinedAt hashes threshold p q)
      = (List.range hashes.length).filter fun q =>
        ((linkedSets hashes threshold).find q).1 = ((linkedSets hashes threshold).find p).1 := by
    congr 1
    funext q
    simp only [eq_comm, linkedSets_find_eq_iff]
  simp only [groups, mem_sortByKey, List.mem_filter, List.mem_map, Prod.exists, mem_groupByKey,
    decide_eq_true_eq, hClass]
  constructor
  · rintro ⟨⟨root, _, ⟨rfl, hGroup⟩, rfl⟩, hSize⟩
    obtain ⟨p, hp⟩ := List.exists_mem_of_ne_nil _ hGroup
    simp only [List.mem_filter, List.mem_range, decide_eq_true_eq] at hp
    exact ⟨⟨p, hp.1, by rw [hp.2]⟩, hSize⟩
  · rintro ⟨⟨p, hp, rfl⟩, hSize⟩
    refine ⟨⟨_, _, ⟨rfl, ?_⟩, rfl⟩, hSize⟩
    apply List.ne_nil_of_mem (a := p)
    simpa using hp

/-- The groups come in the order of their first positions, which differ as the groups have
different roots. -/
theorem groups_pairwise :
    (groups hashes threshold).Pairwise fun g h => g.headD 0 < h.headD 0 := by
  let root (p : Nat) := ((linkedSets hashes threshold).find p).1
  let classes := groupByKey root (List.range hashes.length)
  have hRoot : ∀ item ∈ classes, root (item.2.headD 0) = item.1 := by
    rintro ⟨k, group⟩ hItem
    obtain ⟨hEq, hGroup⟩ := mem_groupByKey.mp hItem
    cases group with
    | nil => exact absurd rfl hGroup
    | cons first rest =>
        have hFirst : first ∈ (List.range hashes.length).filter fun p => root p = k := by
          rw [← hEq]
          exact List.mem_cons_self
        simpa using (List.mem_filter.mp hFirst).2
  have hHeads : (((classes.map (·.2)).filter fun group => 2 ≤ group.length).map
      (·.headD 0)).Nodup := by
    rw [List.Nodup, List.pairwise_map, List.pairwise_filter, List.pairwise_map]
    apply (groupByKey_ascending root (List.range hashes.length)).imp_of_mem
    intro item other hItem hOther hLess _ _ hEq
    change compare item.1 other.1 = .lt at hLess
    rw [← hRoot item hItem, ← hRoot other hOther, hEq, Std.ReflOrd.compare_self] at hLess
    cases hLess
  exact (ascending_sortByKey hHeads).imp fun hLess => Nat.compare_eq_lt.mp hLess

end Search

end DatasetAudit.Near
