import DatasetAudit.Proofs.Check.Leakage

/-! Leakage of identical images. The findings about a digest are those of the one cluster of its
copies, so there is one for each evaluation split that the copies reach into and none besides,
whatever is asked of near duplicates. -/

namespace DatasetAudit

/-- The entry without its perceptual hash. -/
def IndexEntry.unhashed (entry : IndexEntry) : IndexEntry :=
  { entry with perceptualHash := none }

namespace Leakage

variable {index : Index} {config : Config}

/-- The findings that share a digest are those of the cluster of its copies. A single copy has no
cluster, and reaches nowhere either. -/
theorem exactFindings_filter (hKeys : (index.entries.map IndexEntry.key).Nodup) (hash : String) :
    (exactFindings index).filter (fun f => f.sharedHash? = some hash) =
      clusterFindings (copiesCluster index hash) := by
  have hShared : ∀ cluster ∈ exactClusters index, ∀ f ∈ clusterFindings cluster,
      f.sharedHash? = some cluster.key := by
    intro cluster hCluster f hFinding
    obtain ⟨other, _, rfl⟩ := mem_exactClusters.mp hCluster
    obtain ⟨target, _, hSome⟩ := exists_of_mem_clusterFindings hFinding
    exact finding?_sharedHash? rfl hSome
  calc (exactFindings index).filter (fun f => f.sharedHash? = some hash)
      = (exactClusters index).flatMap fun cluster =>
          (clusterFindings cluster).filter fun f => f.sharedHash? = some hash := by
        rw [exactFindings, List.filter_flatMap]
    _ = ((exactClusters index).filter fun cluster => cluster.key = hash).flatMap
          fun cluster => (clusterFindings cluster).filter fun f => f.sharedHash? = some hash := by
        symm
        apply flatMap_filter_eq
        intro cluster hCluster hKey
        rw [List.filter_eq_nil_iff]
        intro f hFinding hHash
        rw [hShared cluster hCluster f hFinding] at hHash
        simp_all
    _ = clusterFindings (copiesCluster index hash) := by
        rw [exactClusters_filter]
        split
        · rename_i hTwo
          rw [List.flatMap_singleton, List.filter_eq_self]
          intro f hFinding
          exact decide_eq_true (hShared _ (mem_exactClusters.mpr ⟨hash, hTwo, rfl⟩) f hFinding)
        · rename_i hFew
          rw [clusterFindings_eq]
          symm
          rw [List.flatMap_nil, List.filterMap_eq_nil_iff]
          intro target hTarget
          apply finding?_eq_none (gathers_copies hash hKeys)
          intro hReaches
          exact hFew (two_le_length_of_reaches hTarget hReaches)

/-- The findings of exact kinds are those of the exact clusters, whatever else is looked at. -/
theorem leakage_filter_exactIds (hEnabled : config.checks.leakage.enabled = true) :
    ((findingsOf .leakage (runChecks index config)).filter fun f => f.id ∈ exactIds) =
      exactFindings index := by
  have hExact : ((exactFindings index).filter fun f => f.id ∈ exactIds) = exactFindings index := by
    rw [List.filter_eq_self]
    intro f hFinding
    obtain ⟨⟨target, hId⟩, _⟩ := exact_of_mem_exactFindings hFinding
    exact decide_eq_true (List.mem_map_of_mem hId)
  have hNear : ((nearFindings index config).filter fun f => f.id ∈ exactIds) = [] := by
    rw [List.filter_eq_nil_iff]
    intro f hFinding hId
    obtain ⟨target, hNear⟩ := near_of_mem_nearFindings hFinding
    obtain ⟨⟨other, _⟩, hExact, rfl⟩ := List.mem_map.mp (of_decide_eq_true hId)
    cases (pairIds_unique hNear hExact).1
  rw [findingsOf_leakage hEnabled, List.filter_append, hExact, hNear, List.append_nil]

theorem leakage_filter_hash (hKeys : (index.entries.map IndexEntry.key).Nodup)
    (hEnabled : config.checks.leakage.enabled = true) (hash : String) :
    ((findingsOf .leakage (runChecks index config)).filter fun f =>
      f.id ∈ exactIds ∧ f.sharedHash? = some hash) =
        clusterFindings (copiesCluster index hash) := by
  rw [← exactFindings_filter hKeys, ← leakage_filter_exactIds hEnabled, List.filter_filter]
  simp only [Bool.decide_and, Bool.and_comm]

theorem leakage_filter_id (hKeys : (index.entries.map IndexEntry.key).Nodup)
    (hEnabled : config.checks.leakage.enabled = true) {target : Split} {id : FindingId}
    (hId : (target, id) ∈ pairIds .exact) (hash : String) :
    ((findingsOf .leakage (runChecks index config)).filter fun f =>
      f.id = id ∧ f.sharedHash? = some hash) =
        (finding? (copiesCluster index hash) target).toList := by
  have hMem : id ∈ exactIds := List.mem_map_of_mem hId
  have hNarrow : ((findingsOf .leakage (runChecks index config)).filter fun f =>
      f.id = id ∧ f.sharedHash? = some hash) =
        ((findingsOf .leakage (runChecks index config)).filter fun f =>
          f.id ∈ exactIds ∧ f.sharedHash? = some hash).filter fun f => f.id = id := by
    rw [List.filter_filter]
    apply List.filter_congr
    intro f _
    rw [← Bool.decide_and, decide_eq_decide]
    constructor
    · rintro ⟨rfl, hHash⟩
      exact ⟨rfl, hMem, hHash⟩
    · rintro ⟨hName, _, hHash⟩
      exact ⟨hName, hHash⟩
  rw [hNarrow, leakage_filter_hash hKeys hEnabled]
  exact clusterFindings_filter_id hId

/-- What the findings of a run say about images with the same bytes: one critical finding for each
digest and each evaluation split that its copies reach into, and none besides. -/
structure ExactLeakage (index : Index) (findings : List Finding) : Prop where
  reported : ∀ target id, (target, id) ∈ pairIds .exact → ∀ hash,
    Reaches (copies index hash) target →
      ∃ f, findings.filter (fun f => f.id = id ∧ f.sharedHash? = some hash) = [f] ∧
        f.severity = .critical ∧ Reports (copies index hash) target id f
  silent : ∀ target id, (target, id) ∈ pairIds .exact → ∀ hash,
    ¬Reaches (copies index hash) target →
      findings.filter (fun f => f.id = id ∧ f.sharedHash? = some hash) = []
  shared : ∀ f ∈ findings, f.id ∈ exactIds → f.sharedHash?.isSome
  everywhere : ∀ hash, (∀ split, ∃ entry ∈ copies index hash, entry.split = split) →
    ((findings.filter fun f => f.id ∈ exactIds ∧ f.sharedHash? = some hash).map (·.id)) =
      [.leakageExactTrainVal, .leakageExactTrainTest]
  untrained : ∀ hash, (∀ entry ∈ copies index hash, entry.split ≠ .train) →
    (findings.filter fun f => f.id ∈ exactIds ∧ f.sharedHash? = some hash) = []
  ordered : ∀ hash split, Ascending id (imagesOf (copies index hash) split)

theorem exactLeakage_runChecks (hKeys : (index.entries.map IndexEntry.key).Nodup)
    (hEnabled : config.checks.leakage.enabled = true) :
    ExactLeakage index (findingsOf .leakage (runChecks index config)) where
  reported := by
    intro target id hId hash hReaches
    obtain ⟨hTarget, rfl⟩ := mem_pairIds.mp hId
    obtain ⟨f, hSome, hReports⟩ :=
      finding?_of_reaches (gathers_copies hash hKeys) hTarget hReaches
    refine ⟨f, ?_, ?_, hReports⟩
    · rw [leakage_filter_id hKeys hEnabled hId, hSome]
      rfl
    · rw [hReports.severity]
      cases target <;> rfl
  silent := by
    intro target id hId hash hReaches
    rw [leakage_filter_id hKeys hEnabled hId,
      finding?_eq_none (gathers_copies hash hKeys) hReaches]
    rfl
  shared := by
    intro f hFinding hId
    have hExact : f ∈ exactFindings index := by
      rw [← leakage_filter_exactIds hEnabled]
      exact List.mem_filter.mpr ⟨hFinding, decide_eq_true hId⟩
    exact (exact_of_mem_exactFindings hExact).2
  everywhere := by
    intro hash hAll
    have hGathers := gathers_copies hash hKeys
    obtain ⟨f, hVal, hReportsVal⟩ := finding?_of_reaches hGathers
      (show Split.val ∈ Split.evaluation by decide) ⟨hAll .train, hAll .val⟩
    obtain ⟨g, hTest, hReportsTest⟩ := finding?_of_reaches hGathers
      (show Split.test ∈ Split.evaluation by decide) ⟨hAll .train, hAll .test⟩
    rw [leakage_filter_hash hKeys hEnabled, clusterFindings_eq, Split.evaluation,
      List.filterMap_cons_some hVal, List.filterMap_cons_some hTest]
    change [f.id, g.id] = _
    rw [hReportsVal.named, hReportsTest.named]
    rfl
  untrained := by
    intro hash hNone
    rw [leakage_filter_hash hKeys hEnabled, clusterFindings_eq, List.filterMap_eq_nil_iff]
    intro target _
    apply finding?_eq_none (gathers_copies hash hKeys)
    rintro ⟨⟨entry, hEntry, hTrain⟩, _⟩
    exact hNone entry hEntry hTrain
  ordered := fun hash split => (gathers_copies hash hKeys).imagesOf_ascending split

/-- The exact clusters do not see perceptual hashes. -/
theorem exactFindings_congr {index' : Index}
    (hEntries : index'.entries.map IndexEntry.unhashed = index.entries.map IndexEntry.unhashed) :
    exactFindings index' = exactFindings index := by
  have hForget (entries : List IndexEntry) :
      (entries.map IndexEntry.unhashed).filterMap hashedMember? =
        entries.filterMap hashedMember? := by
    rw [List.filterMap_map]
    rfl
  rw [exactFindings, exactFindings, exactClusters, exactClusters, ← hForget, hEntries, hForget]

/-- Copies over all splits, and copies over the evaluation splits only. -/
def spread : Index := .ofEntries
  [.ofHashes .test "c.png" (some "ha") none,
   .ofHashes .train "a.png" (some "ha") (some 1),
   .ofHashes .val "b.png" (some "ha") (some 2),
   .ofHashes .val "d.png" (some "hb") none,
   .ofHashes .test "e.png" (some "hb") none]

example : (exactClusters spread).map Cluster.leakagePairs =
    [[(.train, .val), (.train, .test)], []] := by cbv

end Leakage

end DatasetAudit
