import DatasetAudit.Proofs.Check.Origin
import DatasetAudit.Proofs.Cluster.Arrival
import DatasetAudit.Proofs.Finding.Order

/-! Checks of the same entries in another order. Every check ends in the same way, and its findings
differ at most in the order of those that do not tie, so that sorting them removes the difference.
Only findings of near clusters that spread over splits are told apart by their fingerprints. -/

namespace DatasetAudit

section Distribution

theorem ClassHistogram.add_right_comm (h : ClassHistogram) (a b : Int64) :
    (h.add a).add b = (h.add b).add a := by
  have hModify (i j : Nat) : (h.counts.modify i (· + 1)).modify j (· + 1) =
      (h.counts.modify j (· + 1)).modify i (· + 1) := by
    by_cases hEq : i = j
    · rw [hEq]
    · exact List.modify_modify_ne _ _ _ hEq
  by_cases ha : 0 ≤ a.toInt <;> by_cases hb : 0 ≤ b.toInt <;> simp [add, ha, hb, hModify]

theorem histogramOf_eq_of_perm {entries others : List IndexEntry} (hPerm : entries.Perm others)
    (classCount : Nat) : histogramOf classCount entries = histogramOf classCount others :=
  (hPerm.flatMap_right _).foldl_eq' (fun _ _ _ _ h => h.add_right_comm _ _) _

theorem Distribution.ofIndex_eq_of_perm {index : Index} {entries : List IndexEntry}
    (hPerm : index.entries.Perm entries) : ofIndex { index with entries } = ofIndex index := by
  have hIn (split : Split) : (index.entriesIn split).Perm
      (Index.entriesIn { index with entries } split) := hPerm.filter _
  unfold ofIndex
  congr 1
  · exact (histogramOf_eq_of_perm hPerm _).symm
  · apply List.filterMap_congr
    intro split _
    simp only [← (hIn split).isEmpty_eq, ← histogramOf_eq_of_perm (hIn split)]
    rfl

end Distribution

namespace Finding

variable {a b c : Finding}

/-- A finding about a member of a cluster. -/
def PointsTo (finding : Finding) (member : ClusterMember) : Prop :=
  finding.split = some member.split ∧ finding.image = some member.image

theorem PointsTo.key_eq {member member' : ClusterMember} (hb : b.PointsTo member)
    (hc : c.PointsTo member') (hTieB : order a b = .eq) (hTieC : order a c = .eq) :
    member.key = member'.key := by
  obtain ⟨-, hSplitB, hImageB, -⟩ := order_eq_iff.mp hTieB
  obtain ⟨-, hSplitC, hImageC, -⟩ := order_eq_iff.mp hTieC
  rw [hSplitB, hb.1, hc.1] at hSplitC
  rw [hImageB, hb.2, hc.2] at hImageC
  exact (ImageKey.mk.injEq ..).mpr ⟨Option.some.inj hSplitC, Option.some.inj hImageC⟩

theorem FromEntry.key_eq {kind : CheckKind} {x y : IndexEntry} (hb : b.FromEntry kind x)
    (hc : c.FromEntry kind y) (hTieB : order a b = .eq) (hTieC : order a c = .eq) :
    x.key = y.key := by
  have hPointsB : b.PointsTo (.ofEntry x) := ⟨hb.split, hb.image⟩
  have hPointsC : c.PointsTo (.ofEntry y) := ⟨hc.split, hc.image⟩
  exact hPointsB.key_eq hPointsC hTieB hTieC

end Finding

/-- The bytes whose digest is the fingerprint of a cluster. -/
def Cluster.message (cluster : Cluster) : List UInt8 :=
  Fingerprint.message (Duplicates.findingId cluster.kind cluster.scope) (cluster.identities [])

/-- Clusters that differ in their messages differ in their fingerprints: no two of the messages have
the same digest by accident. -/
def Cluster.Collisionless (clusters : List Cluster) : Prop :=
  ∀ cluster ∈ clusters, ∀ cluster' ∈ clusters,
    Sha256.hexDigest cluster.message = Sha256.hexDigest cluster'.message →
      cluster.message = cluster'.message

section Clusters

variable {cluster cluster' : Cluster}

/-- The message of a cluster begins with its kind and the identity of its first member. -/
theorem Cluster.exists_message_eq {first : ClusterMember} {rest : List ClusterMember}
    (h : cluster.members = first :: rest) :
    ∃ more, cluster.message =
      Utf8.encode (Duplicates.findingId cluster.kind cluster.scope).name ++
        Fingerprint.separator :: (Utf8.encode first.split.name ++ 58 :: more) := by
  refine ⟨Utf8.encode first.image ++ (rest.map ClusterMember.identity).flatMap
    fun part => Fingerprint.separator :: Utf8.encode part, ?_⟩
  rw [message, Fingerprint.message, identities_nil, h, List.map_cons, List.flatMap_cons,
    ClusterMember.identity, Utf8.encode_text]
  simp [ClusterMember.key]

theorem Duplicates.finding_unkeyed {distance : Nat} (h : cluster.maxDistance = some distance) :
    finding cluster.unkeyed = finding cluster := by
  simp only [finding, metrics, Cluster.evidence, Cluster.unkeyed, h]
  rfl

theorem Leakage.clusterFindings_unkeyed {distance : Nat}
    (h : cluster.maxDistance = some distance) :
    clusterFindings cluster.unkeyed = clusterFindings cluster := by
  have hFinding (origin target : Split) :
      finding cluster.unkeyed origin target = finding cluster origin target := by
    funext first
    simp only [finding, Cluster.evidence, Cluster.unkeyed, h]
    rfl
  simp only [clusterFindings, hFinding]
  rfl

theorem Leakage.exists_pointsTo {f : Finding} (h : f ∈ clusterFindings cluster) :
    ∃ member ∈ cluster.members, f.PointsTo member := by
  obtain ⟨target, _, hFinding⟩ := exists_of_mem_clusterFindings h
  unfold finding? at hFinding
  split at hFinding
  · obtain ⟨first, hFirst, rfl⟩ := Option.map_eq_some_iff.mp hFinding
    have hTarget : first.split = target := by simpa using List.find?_some hFirst
    exact ⟨first, List.mem_of_find?_eq_some hFirst, congrArg some hTarget.symm, rfl⟩
  · cases hFinding

end Clusters

section NearFindings

variable {index other : Index} {threshold : Nat} {cluster cluster' : Cluster}

/-- If only findings of one cluster tie, the findings of all near clusters keep their ties. -/
theorem Near.sameTies_flatMap (hKeys : (index.entries.map IndexEntry.key).Nodup)
    (hPerm : index.entries.Perm other.entries) {f : Cluster → List Finding}
    (hUnkeyed : ∀ (cluster : Cluster) (distance : Nat), cluster.maxDistance = some distance →
      f cluster.unkeyed = f cluster)
    (hTies : ∀ cluster ∈ nearClusters index threshold, ∀ cluster' ∈ nearClusters index threshold,
      ∀ a, ∀ b ∈ f cluster, ∀ c ∈ f cluster', Finding.order a b = .eq →
        Finding.order a c = .eq → cluster = cluster') :
    SameTies Finding.order ((nearClusters index threshold).flatMap f)
      ((nearClusters other threshold).flatMap f) := by
  have hForget {index : Index} (hKeys : (index.entries.map IndexEntry.key).Nodup) :
      ((nearClusters index threshold).map Cluster.unkeyed).flatMap f =
        (nearClusters index threshold).flatMap f := by
    rw [List.flatMap_map]
    apply List.flatMap_congr
    intro cluster hCluster
    obtain ⟨distance, hDistance⟩ := exists_maxDistance hKeys hCluster
    exact hUnkeyed cluster distance hDistance
  rw [← hForget hKeys, ← hForget ((hPerm.map _).nodup_iff.mp hKeys)]
  have hNodup : (((nearClusters index threshold).map Cluster.unkeyed).map id).Nodup := by
    rw [List.map_id]
    exact map_unkeyed_nodup threshold hKeys
  apply SameTies.flatMap_of_perm hNodup (map_unkeyed_perm threshold hKeys hPerm)
  intro x hx y hy a b hb c hc hTieB hTieC
  obtain ⟨cluster, hCluster, rfl⟩ := List.mem_map.mp hx
  obtain ⟨cluster', hCluster', rfl⟩ := List.mem_map.mp hy
  obtain ⟨distance, hDistance⟩ := exists_maxDistance hKeys hCluster
  obtain ⟨distance', hDistance'⟩ := exists_maxDistance hKeys hCluster'
  rw [hUnkeyed cluster distance hDistance] at hb
  rw [hUnkeyed cluster' distance' hDistance'] at hc
  rw [hTies cluster hCluster cluster' hCluster' a b hb c hc hTieB hTieC]

/-- Findings about members of near clusters tie only if they are of one cluster. -/
theorem Near.eq_of_pointsTo (hKeys : (index.entries.map IndexEntry.key).Nodup)
    (hCluster : cluster ∈ nearClusters index threshold)
    (hCluster' : cluster' ∈ nearClusters index threshold) {a b c : Finding}
    (hb : ∃ member ∈ cluster.members, b.PointsTo member)
    (hc : ∃ member ∈ cluster'.members, c.PointsTo member)
    (hTieB : Finding.order a b = .eq) (hTieC : Finding.order a c = .eq) : cluster = cluster' := by
  obtain ⟨member, hMember, hb⟩ := hb
  obtain ⟨member', hMember', hc⟩ := hc
  exact eq_of_mem_members hKeys hCluster hCluster' hMember hMember'
    (hb.key_eq hc hTieB hTieC)

/-- A finding of a cluster within one split is about its first member. -/
theorem Duplicates.pointsTo_of_within {split : Split} {first : ClusterMember}
    {rest : List ClusterMember} (hScope : cluster.scope = .within split)
    (hMembers : cluster.members = first :: rest) : (finding cluster).PointsTo first := by
  have hFirst : first.split = split :=
    Cluster.split_of_within hScope (hMembers ▸ List.mem_cons_self)
  constructor
  · change scopeSplit? cluster.scope = some first.split
    rw [hScope, hFirst]
    rfl
  · change cluster.members.head?.map (·.image) = some first.image
    rw [hMembers]
    rfl

theorem Duplicates.eq_of_ties (hKeys : (index.entries.map IndexEntry.key).Nodup)
    (hDigests : Cluster.Collisionless (nearClusters index threshold))
    (hCluster : cluster ∈ nearClusters index threshold)
    (hCluster' : cluster' ∈ nearClusters index threshold) {a : Finding}
    (hTie : Finding.order a (finding cluster) = .eq)
    (hTie' : Finding.order a (finding cluster') = .eq) : cluster = cluster' := by
  obtain ⟨first, rest, hFirst⟩ := Near.exists_mem_members hKeys hCluster
  obtain ⟨first', rest', hFirst'⟩ := Near.exists_mem_members hKeys hCluster'
  obtain ⟨hId, hSplit, hImage, -, hFingerprint⟩ := Finding.order_eq_iff.mp hTie
  obtain ⟨hId', hSplit', hImage', -, hFingerprint'⟩ := Finding.order_eq_iff.mp hTie'
  have hScopes : scopeSplit? cluster.scope = scopeSplit? cluster'.scope := hSplit.symm.trans hSplit'
  cases hScope : cluster.scope with
  | within split =>
      have hOther : cluster'.scope = .within split := by
        cases h : cluster'.scope <;> simp_all [scopeSplit?]
      exact Near.eq_of_pointsTo hKeys hCluster hCluster'
        ⟨first, hFirst ▸ List.mem_cons_self, pointsTo_of_within hScope hFirst⟩
        ⟨first', hFirst' ▸ List.mem_cons_self, pointsTo_of_within hOther hFirst'⟩ hTie hTie'
  | across =>
      -- The split does not tell the clusters apart here, but the first member's does, and that
      -- stands in the message.
      have hDigest : Sha256.hexDigest cluster.message = Sha256.hexDigest cluster'.message :=
        String.append_right_inj _ |>.mp (hFingerprint.symm.trans hFingerprint')
      have hMessage := hDigests cluster hCluster cluster' hCluster' hDigest
      obtain ⟨more, hMore⟩ := Cluster.exists_message_eq hFirst
      obtain ⟨more', hMore'⟩ := Cluster.exists_message_eq hFirst'
      have hIds : findingId cluster.kind cluster.scope = findingId cluster'.kind cluster'.scope :=
        hId.symm.trans hId'
      rw [hMore, hMore', hIds] at hMessage
      have hSplits : first.split = first'.split :=
        Split.eq_of_encode (List.cons.inj (List.append_cancel_left hMessage)).2
      have hImages : cluster.members.head?.map (·.image) = cluster'.members.head?.map (·.image) :=
        hImage.symm.trans hImage'
      rw [hFirst, hFirst'] at hImages
      refine Near.eq_of_mem_members hKeys hCluster hCluster' (hFirst ▸ List.mem_cons_self)
        (hFirst' ▸ List.mem_cons_self) ?_
      exact (ImageKey.mk.injEq ..).mpr ⟨hSplits, Option.some.inj hImages⟩

end NearFindings

end DatasetAudit
