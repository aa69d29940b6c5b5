import DatasetAudit.Proofs.Check.Arrival
import DatasetAudit.Proofs.Report.Agreement

/-! Reports of the same entries in another order. Every check has a matching outcome, and a report
shows of outcomes that match one and the same thing. -/

namespace DatasetAudit

section Checks

variable {index : Index} {config : Config} {entries : List IndexEntry} {kind : CheckKind}

/-- The clusters of the same entries in another order. -/
structure ClusterSet.Matches (index other : Index) (threshold : Nat)
    (clusters others : ClusterSet) : Prop where
  exact : others.exact = clusters.exact
  near : (clusters.near = none ∧ others.near = none) ∨
    (clusters.near = some (nearClusters index threshold) ∧
      others.near = some (nearClusters other threshold))

theorem ClusterSet.build_matches (config : Config)
    (hKeys : (index.entries.map IndexEntry.key).Nodup) (hPerm : index.entries.Perm entries) :
    ClusterSet.Matches index { index with entries }
      config.checks.nearDuplicates.phashHammingThreshold.toNat
      (ClusterSet.build index config) (ClusterSet.build { index with entries } config) := by
  have hExact : exactClusters index = exactClusters { index with entries } :=
    exactClusters_eq_of_perm hKeys hPerm
  constructor
  · simp only [build, hExact]
  · simp only [build]
    split
    · exact .inr ⟨rfl, rfl⟩
    · exact .inl ⟨rfl, rfl⟩

theorem Integrity.sameTies_findings (hKeys : (index.entries.map IndexEntry.key).Nodup)
    (hPerm : index.entries.Perm entries) :
    SameTies Finding.order (findings index) (findings { index with entries }) := by
  refine SameTies.append (SameTies.flatMap_of_perm hKeys hPerm ?_) (.refl _)
  intro x _ y _ a b hb c hc
  exact (fromEntry_of_mem_entryFindings hb).key_eq (fromEntry_of_mem_entryFindings hc)

theorem BoxSanity.sameTies_findings (config : BoxSanityConfig)
    (hKeys : (index.entries.map IndexEntry.key).Nodup) (hPerm : index.entries.Perm entries) :
    SameTies Finding.order (findings config index) (findings config { index with entries }) := by
  apply SameTies.flatMap_of_perm hKeys hPerm
  intro x _ y _ a b hb c hc
  exact (fromEntry_of_mem_entryFindings hb).key_eq (fromEntry_of_mem_entryFindings hc)

theorem ClassBalance.findings_eq_of_perm (config : ClassDistributionConfig)
    (hPerm : index.entries.Perm entries) :
    findings config { index with entries } = findings config index := by
  simp only [findings, Distribution.ofIndex_eq_of_perm hPerm]
  rfl

theorem ClassBalance.lacksClasses_eq_of_perm (hPerm : index.entries.Perm entries) :
    lacksClasses { index with entries } = lacksClasses index := by
  simp only [lacksClasses, hPerm.any_eq]
  rfl

theorem Duplicates.sameTies_near {other : Index} {threshold : Nat}
    (hKeys : (index.entries.map IndexEntry.key).Nodup) (hPerm : index.entries.Perm other.entries)
    (hDigests : Cluster.Collisionless (nearClusters index threshold)) :
    SameTies Finding.order ((nearClusters index threshold).map finding)
      ((nearClusters other threshold).map finding) := by
  rw [List.map_eq_flatMap, List.map_eq_flatMap]
  apply Near.sameTies_flatMap hKeys hPerm
  · intro cluster distance hDistance
    rw [finding_unkeyed hDistance]
  · intro cluster hCluster cluster' hCluster' a b hb c hc hTieB hTieC
    obtain rfl := List.mem_singleton.mp hb
    obtain rfl := List.mem_singleton.mp hc
    exact eq_of_ties hKeys hDigests hCluster hCluster' hTieB hTieC

theorem Leakage.sameTies_near {other : Index} {threshold : Nat}
    (hKeys : (index.entries.map IndexEntry.key).Nodup)
    (hPerm : index.entries.Perm other.entries) :
    SameTies Finding.order ((nearClusters index threshold).flatMap clusterFindings)
      ((nearClusters other threshold).flatMap clusterFindings) := by
  apply Near.sameTies_flatMap hKeys hPerm
  · intro cluster distance hDistance
    exact clusterFindings_unkeyed hDistance
  · intro cluster hCluster cluster' hCluster' a b hb c hc
    exact Near.eq_of_pointsTo hKeys hCluster hCluster' (exists_pointsTo hb) (exists_pointsTo hc)

theorem Leakage.sameTies_findings (config : LeakageConfig) {other : Index} {threshold : Nat}
    {clusters others : ClusterSet} (hKeys : (index.entries.map IndexEntry.key).Nodup)
    (hPerm : index.entries.Perm other.entries)
    (hClusters : ClusterSet.Matches index other threshold clusters others) :
    SameTies Finding.order (findings config clusters) (findings config others) := by
  refine SameTies.append (hClusters.exact ▸ .refl _) ?_
  split
  · obtain ⟨hNone, hNone'⟩ | ⟨hSome, hSome'⟩ := hClusters.near
    · rw [hNone, hNone']
      exact .refl _
    · rw [hSome, hSome']
      exact sameTies_near hKeys hPerm
  · exact .refl _

/-- A check of the same entries in another order lacks the same, or its findings match. -/
theorem CheckKind.evaluate_matches (kind : CheckKind) (config : Config)
    {clusters others : ClusterSet} {threshold : Nat}
    (hKeys : (index.entries.map IndexEntry.key).Nodup) (hPerm : index.entries.Perm entries)
    (hClusters : ClusterSet.Matches index { index with entries } threshold clusters others)
    (hDigests : Cluster.Collisionless (clusters.near.getD [])) :
    (∃ findings findings', kind.evaluate index config clusters = .ok findings ∧
      kind.evaluate { index with entries } config others = .ok findings' ∧
      SameTies Finding.order findings findings') ∨
    ∃ obstacle, kind.evaluate index config clusters = .error obstacle ∧
      kind.evaluate { index with entries } config others = .error obstacle := by
  cases kind with
  | integrity => exact .inl ⟨_, _, rfl, rfl, Integrity.sameTies_findings hKeys hPerm⟩
  | classDistribution =>
      simp only [evaluate, ClassBalance.lacksClasses_eq_of_perm hPerm,
        ClassBalance.findings_eq_of_perm _ hPerm]
      split
      · exact .inr ⟨_, rfl, rfl⟩
      · exact .inl ⟨_, _, rfl, rfl, .refl _⟩
  | bboxSanity => exact .inl ⟨_, _, rfl, rfl, BoxSanity.sameTies_findings _ hKeys hPerm⟩
  | duplicates => exact .inl ⟨_, _, rfl, rfl, hClusters.exact ▸ .refl _⟩
  | nearDuplicates =>
      obtain ⟨hNone, hNone'⟩ | ⟨hSome, hSome'⟩ := hClusters.near
      · simp only [evaluate, hNone, hNone']
        exact .inr ⟨_, rfl, rfl⟩
      · simp only [evaluate, hSome, hSome']
        rw [hSome] at hDigests
        exact .inl ⟨_, _, rfl, rfl, Duplicates.sameTies_near hKeys hPerm hDigests⟩
  | leakage => exact .inl ⟨_, _, rfl, rfl, Leakage.sameTies_findings _ hKeys hPerm hClusters⟩

theorem CheckKind.gap?_eq {other : Index} {threshold : Nat} {clusters others : ClusterSet}
    (hClusters : ClusterSet.Matches index other threshold clusters others) :
    kind.gap? config others = kind.gap? config clusters := by
  have hNone : others.near.isNone = clusters.near.isNone := by
    obtain ⟨hNone, hNone'⟩ | ⟨hSome, hSome'⟩ := hClusters.near
    · rw [hNone, hNone']
    · rw [hSome, hSome', Option.isNone_some, Option.isNone_some]
  rw [gap?, gap?, Leakage.lacksNear, Leakage.lacksNear, hNone]

/-- Two outcomes differ at most in the order of findings that do not tie. -/
structure CheckOutcome.Matches (outcome other : CheckOutcome) : Prop where
  kind : outcome.kind = other.kind
  status : outcome.status = other.status
  reason : outcome.reason = other.reason
  findings : SameTies Finding.order outcome.findings other.findings

theorem CheckOutcome.ofCheck_matches (kind : CheckKind) (config : Config)
    {clusters others : ClusterSet} {threshold : Nat}
    (hKeys : (index.entries.map IndexEntry.key).Nodup) (hPerm : index.entries.Perm entries)
    (hClusters : ClusterSet.Matches index { index with entries } threshold clusters others)
    (hDigests : Cluster.Collisionless (clusters.near.getD [])) :
    (ofCheck index config clusters kind).Matches
      (ofCheck { index with entries } config others kind) := by
  unfold ofCheck
  split
  · obtain ⟨findings, findings', hFindings, hFindings', hSame⟩ | ⟨obstacle, hError, hError'⟩ :=
      kind.evaluate_matches config hKeys hPerm hClusters hDigests
    · rw [hFindings, hFindings']
      refine ⟨rfl, rfl, ?_, hSame⟩
      exact congrArg (Option.map CheckObstacle.message) (CheckKind.gap?_eq hClusters).symm
    · rw [hError, hError']
      exact ⟨rfl, rfl, rfl, .refl _⟩
  · exact ⟨rfl, rfl, rfl, .refl _⟩

end Checks

namespace Report

section Outcomes

variable {kinds : List CheckKind} {outcome other : CheckKind → CheckOutcome}

theorem sameTies_flatMap (h : ∀ kind, (outcome kind).Matches (other kind)) :
    SameTies Finding.order ((kinds.map outcome).flatMap (·.findings))
      ((kinds.map other).flatMap (·.findings)) := by
  induction kinds with
  | nil => exact .refl []
  | cons kind kinds ih => exact (h kind).findings.append ih

theorem checkErrors_eq (h : ∀ kind, (outcome kind).Matches (other kind)) :
    checkErrors (kinds.map outcome) = checkErrors (kinds.map other) := by
  simp only [checkErrors, List.filter_map, List.map_map, Function.comp_def, (h _).status,
    (h _).kind]

theorem checkSummary_eq {a b : CheckOutcome} (h : a.Matches b) : checkSummary a = checkSummary b := by
  rw [checkSummary, checkSummary, h.status, h.reason,
    SeverityCounts.ofFindings_eq_of_perm h.findings.perm]

theorem map_checkSummary_findLast? (h : ∀ kind, (outcome kind).Matches (other kind))
    (kind : CheckKind) :
    (findLast? (fun a => a.kind = kind) (kinds.map outcome)).map checkSummary =
      (findLast? (fun a => a.kind = kind) (kinds.map other)).map checkSummary := by
  simp only [findLast?, ← List.map_reverse, List.find?_map, Function.comp_def, (h _).kind,
    Option.map_map, checkSummary_eq (h _)]

end Outcomes

section Runs

variable {index : Index} {config : Config} {entries : List IndexEntry}

theorem datasetInfo_eq_of_perm (hPerm : index.entries.Perm entries) :
    datasetInfo { index with entries } = datasetInfo index := by
  have hCounts (info : SplitInfo) :
      splitCounts { index with entries } info = splitCounts index info := by
    have hIn : (index.entriesIn info.split).Perm
        (Index.entriesIn { index with entries } info.split) := hPerm.filter _
    simp only [splitCounts, hIn.countP_eq]
  simp only [datasetInfo, funext hCounts]
  rfl

/-- The order in which entries arrived does not show in a report: neither in the flags nor in the
summary. -/
theorem ofOutcomes_runChecks_eq_of_perm (index : Index) (config : Config) (run : RunInfo)
    (entries : List IndexEntry) (hKeys : (index.entries.map IndexEntry.key).Nodup)
    (hDigests : Cluster.Collisionless ((ClusterSet.build index config).near.getD []))
    (hPerm : index.entries.Perm entries) :
    ofOutcomes { index with entries } config (runChecks { index with entries } config) run =
      ofOutcomes index config (runChecks index config) run := by
  have hClusters := ClusterSet.build_matches config hKeys hPerm
  have hOutcomes (kind : CheckKind) :=
    CheckOutcome.ofCheck_matches kind config hKeys hPerm hClusters hDigests
  have hFindings : Finding.sort ((runChecks index config).flatMap (·.findings)) =
      Finding.sort ((runChecks { index with entries } config).flatMap (·.findings)) :=
    (sameTies_flatMap hOutcomes).sort_eq
  have hErrors : checkErrors (runChecks index config) =
      checkErrors (runChecks { index with entries } config) := checkErrors_eq hOutcomes
  have hChecks (kind : CheckKind) :
      (findLast? (fun a => a.kind = kind) (runChecks index config)).map checkSummary =
        (findLast? (fun a => a.kind = kind) (runChecks { index with entries } config)).map
          checkSummary := map_checkSummary_findLast? hOutcomes kind
  simp only [ofOutcomes, totals, datasetInfo_eq_of_perm hPerm, hFindings, hErrors, hChecks]

end Runs

/-- Two pairs of similar images over splits. Their findings differ in their fingerprints only, as
the first images of the pairs have the same path. -/
def mirrored : Index := .ofEntries
  [.ofHashes .train "a.png" (some "ha") (some 0),
   .ofHashes .test "x.png" (some "hx") (some 1),
   .ofHashes .val "a.png" (some "hb") (some 0xFFFFFFFF),
   .ofHashes .test "y.png" (some "hy") (some 0xFFFFFFFE)]

/-- The configuration that looks for near duplicates too. -/
def nearToo : Config :=
  { checks := { nearDuplicates := { enabled := true } } }

theorem nearClusters_mirrored : nearClusters mirrored 8 =
    [⟨.near, "train:a.png", [⟨.train, "a.png", none⟩, ⟨.test, "x.png", none⟩], some 1⟩,
     ⟨.near, "val:a.png", [⟨.val, "a.png", none⟩, ⟨.test, "y.png", none⟩], some 1⟩] := by cbv

theorem collisionless_mirrored :
    Cluster.Collisionless ((ClusterSet.build mirrored nearToo).near.getD []) := by
  have hNear : (ClusterSet.build mirrored nearToo).near = some (nearClusters mirrored 8) := rfl
  rw [hNear, Option.getD_some, nearClusters_mirrored, Cluster.Collisionless]
  decide +kernel

theorem mirrored_ofOutcomes_runChecks :
    ofOutcomes { mirrored with entries := mirrored.entries.reverse } nearToo
        (runChecks { mirrored with entries := mirrored.entries.reverse } nearToo) shortRun =
      ofOutcomes mirrored nearToo (runChecks mirrored nearToo) shortRun :=
  ofOutcomes_runChecks_eq_of_perm mirrored nearToo shortRun mirrored.entries.reverse (by decide)
    collisionless_mirrored (List.reverse_perm _).symm

end Report

end DatasetAudit
