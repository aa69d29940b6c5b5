import DatasetAudit.Proofs.Check.Leakage

/-! Where a finding comes from. Its kind tells the check that made it, and the checks that look at
one entry at a time name the entry in every finding. -/

namespace DatasetAudit

/-- The check whose findings are of a kind. -/
def FindingId.check : FindingId → CheckKind
  | .integrityMissingLabel | .integrityOrphanLabel | .integrityMalformedRow
  | .integrityInvalidClassId | .integrityCoordOutOfRange | .integrityCorruptImage => .integrity
  | .classImbalanceHigh | .classLowSupport | .classSplitDrift => .classDistribution
  | .bboxTinyBox | .bboxOversizedBox | .bboxExtremeAspectRatio | .bboxTooManyPerImage => .bboxSanity
  | .duplicateWithinSplit | .duplicateAcrossSplits => .duplicates
  | .nearDuplicateWithinSplit | .nearDuplicateAcrossSplits => .nearDuplicates
  | .leakageExactTrainVal | .leakageExactTrainTest | .leakageNearTrainVal
  | .leakageNearTrainTest => .leakage

/-- A check's finding about one entry. -/
structure Finding.FromEntry (finding : Finding) (kind : CheckKind) (entry : IndexEntry) : Prop where
  check : finding.id.check = kind
  split : finding.split = some entry.split
  image : finding.image = some entry.image

namespace Finding.FromEntry

variable {finding : Finding} {kind : CheckKind} {entry : IndexEntry}

theorem about (h : finding.id.check = kind) : (finding.about entry).FromEntry kind entry :=
  ⟨h, rfl, rfl⟩

theorem ofClass {row : AnnotationRow} (h : finding.FromEntry kind entry) :
    (finding.ofClass row).FromEntry kind entry := by
  unfold Finding.ofClass
  split
  · exact ⟨h.check, h.split, h.image⟩
  · exact h

end Finding.FromEntry

namespace Integrity

variable {entry : IndexEntry} {classCount : Nat} {P : Finding → Prop}

theorem forall_mem_rowFindings {row : AnnotationRow}
    (hUnknown : P (unknownClass entry classCount row)) (hRange : P (outOfRange entry row)) :
    ∀ f ∈ rowFindings entry classCount row, P f := by
  rw [rowFindings, List.forall_mem_append]
  constructor
  · split
    · exact List.forall_mem_nil _
    · exact List.forall_mem_singleton.mpr hUnknown
  · split
    · exact List.forall_mem_nil _
    · exact List.forall_mem_singleton.mpr hRange

/-- Every finding about an entry is one of six. -/
theorem forall_mem_entryFindings (hMissing : P (missingLabel entry))
    (hCorrupt : ∀ reason, P (corruptImage entry reason))
    (hUnreadable : ∀ reason, P (unreadableLabel entry reason))
    (hMalformed : ∀ error, P (malformedRow entry error))
    (hUnknown : ∀ row, P (unknownClass entry classCount row))
    (hRange : ∀ row, P (outOfRange entry row)) :
    ∀ f ∈ entryFindings entry classCount, P f := by
  simp only [entryFindings, List.forall_mem_append, and_assoc]
  refine ⟨?_, ?_, ?_, List.forall_mem_map.mpr fun error _ => hMalformed error, ?_⟩
  · split
    · exact List.forall_mem_singleton.mpr hMissing
    · exact List.forall_mem_nil _
  · intro f h
    obtain ⟨reason, _, rfl⟩ := Option.map_eq_some_iff.mp (Option.mem_toList.mp h)
    exact hCorrupt reason
  · unfold stateFindings
    split
    · exact List.forall_mem_singleton.mpr (hUnreadable _)
    · exact List.forall_mem_nil _
  · intro f h
    obtain ⟨row, _, h⟩ := List.mem_flatMap.mp h
    exact forall_mem_rowFindings (hUnknown row) (hRange row) f h

theorem fromEntry_of_mem_entryFindings {f : Finding} (h : f ∈ entryFindings entry classCount) :
    f.FromEntry .integrity entry :=
  forall_mem_entryFindings (P := (·.FromEntry .integrity entry)) (.about rfl)
    (fun _ => .about rfl) (fun _ => .about rfl) (fun _ => .about rfl) (fun _ => .about rfl)
    (fun _ => .ofClass (.about rfl)) f h

/-- Every finding is about an entry or about a label file that has none. -/
theorem forall_mem_findings {index : Index}
    (hEntry : ∀ entry ∈ index.entries, ∀ f ∈ entryFindings entry index.classCount, P f)
    (hOrphan : ∀ split label, P (orphanLabel split label)) : ∀ f ∈ findings index, P f := by
  rw [findings, List.forall_mem_append]
  constructor
  · intro f h
    obtain ⟨entry, hMem, h⟩ := List.mem_flatMap.mp h
    exact hEntry entry hMem f h
  · intro f h
    obtain ⟨info, _, h⟩ := List.mem_flatMap.mp h
    obtain ⟨label, _, rfl⟩ := List.mem_map.mp h
    exact hOrphan info.split label

theorem check_of_mem_findings {index : Index} {f : Finding} (h : f ∈ findings index) :
    f.id.check = .integrity :=
  forall_mem_findings (P := (·.id.check = .integrity))
    (fun _ _ _ h => (fromEntry_of_mem_entryFindings h).check) (fun _ _ => rfl) f h

end Integrity

namespace BoxSanity

variable {config : BoxSanityConfig} {entry : IndexEntry} {P : Finding → Prop}

theorem forall_mem_rowFindings {row : AnnotationRow}
    (hTiny : ∀ area, P (tiny config entry row area))
    (hOversized : ∀ area, P (oversized config entry row area))
    (hNarrow : ∀ aspect, P (narrow config entry row aspect)) :
    ∀ f ∈ rowFindings config entry row, P f := by
  simp only [rowFindings, List.forall_mem_append, and_assoc]
  refine ⟨?_, ?_, List.forall_mem_map.mpr fun aspect _ => hNarrow aspect⟩
  · split
    · exact List.forall_mem_singleton.mpr (hTiny _)
    · exact List.forall_mem_nil _
  · split
    · exact List.forall_mem_singleton.mpr (hOversized _)
    · exact List.forall_mem_nil _

/-- Every finding about an entry is one of four, the first only if its rows are too many. -/
theorem forall_mem_entryFindings
    (hMany : config.maxBoxesPerImageWarn < entry.labels.rows.length →
      P (tooMany config entry entry.labels.rows.length))
    (hTiny : ∀ row area, P (tiny config entry row area))
    (hOversized : ∀ row area, P (oversized config entry row area))
    (hNarrow : ∀ row aspect, P (narrow config entry row aspect)) :
    ∀ f ∈ entryFindings config entry, P f := by
  rw [entryFindings, List.forall_mem_append]
  constructor
  · split
    · rename_i hCount
      exact List.forall_mem_singleton.mpr (hMany hCount)
    · exact List.forall_mem_nil _
  · intro f h
    obtain ⟨row, _, h⟩ := List.mem_flatMap.mp h
    exact forall_mem_rowFindings (hTiny row) (hOversized row) (hNarrow row) f h

theorem fromEntry_of_mem_entryFindings {f : Finding} (h : f ∈ entryFindings config entry) :
    f.FromEntry .bboxSanity entry :=
  forall_mem_entryFindings (P := (·.FromEntry .bboxSanity entry)) (fun _ => .about rfl)
    (fun _ _ => .ofClass (.about rfl)) (fun _ _ => .ofClass (.about rfl))
    (fun _ _ => .ofClass (.about rfl)) f h

end BoxSanity

namespace ClassBalance

variable {config : ClassDistributionConfig} {index : Index} {P : Finding → Prop}

/-- Every finding about the classes is one of three. -/
theorem forall_mem_findings
    (hImbalance : ∀ total classId share, P (imbalance config index total classId share))
    (hLowSupport : ∀ classId count, P (lowSupport config index classId count))
    (hDrift : ∀ target divergence, P (drift config target divergence)) :
    ∀ f ∈ findings config index, P f := by
  simp only [findings, List.forall_mem_append, and_assoc]
  refine ⟨?_, List.forall_mem_map.mpr fun low _ => hLowSupport low.1 low.2, ?_⟩
  · intro f h
    obtain ⟨_, _, rfl⟩ := Option.map_eq_some_iff.mp (Option.mem_toList.mp h)
    exact hImbalance _ _ _
  · intro f h
    obtain ⟨target, _, h⟩ := List.mem_filterMap.mp h
    obtain ⟨divergence, _, rfl⟩ := Option.map_eq_some_iff.mp h
    exact hDrift target divergence

theorem check_of_mem_findings {f : Finding} (h : f ∈ findings config index) :
    f.id.check = .classDistribution :=
  forall_mem_findings (P := (·.id.check = .classDistribution)) (fun _ _ _ => rfl)
    (fun _ _ => rfl) (fun _ _ => rfl) f h

end ClassBalance

/-- The check that looks for clusters of a kind. -/
def ClusterKind.check : ClusterKind → CheckKind
  | .exact => .duplicates
  | .near => .nearDuplicates

theorem Duplicates.check_finding (cluster : Cluster) :
    (finding cluster).id.check = cluster.kind.check := by
  change (findingId cluster.kind cluster.scope).check = cluster.kind.check
  cases cluster.kind <;> cases cluster.scope <;> rfl

theorem Leakage.check_of_mem_clusterFindings {cluster : Cluster} {f : Finding}
    (h : f ∈ clusterFindings cluster) : f.id.check = .leakage := by
  obtain ⟨target, hId, _⟩ := exists_of_mem_clusterFindings h
  obtain ⟨_, hId⟩ := mem_pairIds.mp hId
  rw [← hId]
  cases cluster.kind <;> cases target <;> rfl

section Outcomes

variable {index : Index} {config : Config} {kind : CheckKind} {f : Finding}

/-- Whether a check asks for them or not, the clusters of a run are clusters of its index. -/
theorem ClusterSet.mem_exactClusters_of_mem {cluster : Cluster}
    (h : cluster ∈ (ClusterSet.build index config).exact) : cluster ∈ exactClusters index := by
  simp only [ClusterSet.build] at h
  split at h
  · exact h
  · cases h

theorem ClusterSet.near_eq_nearClusters {near : List Cluster}
    (h : (ClusterSet.build index config).near = some near) :
    near = nearClusters index config.checks.nearDuplicates.phashHammingThreshold.toNat := by
  simp only [ClusterSet.build] at h
  split at h
  · exact (Option.some.inj h).symm
  · cases h

theorem ClusterSet.kind_of_mem_exact {cluster : Cluster}
    (h : cluster ∈ (ClusterSet.build index config).exact) : cluster.kind = .exact := by
  obtain ⟨_, _, rfl⟩ := mem_exactClusters.mp (mem_exactClusters_of_mem h)
  rfl

theorem ClusterSet.kind_of_mem_near {near : List Cluster} {cluster : Cluster}
    (hNear : (ClusterSet.build index config).near = some near) (h : cluster ∈ near) :
    cluster.kind = .near := by
  rw [near_eq_nearClusters hNear] at h
  exact Near.kind_of_mem_nearClusters h

/-- Every finding of the leakage check is one of a cluster. -/
theorem Leakage.forall_mem_findings {leakage : LeakageConfig} {clusters : ClusterSet}
    {P : Finding → Prop} (hExact : ∀ cluster ∈ clusters.exact, ∀ f ∈ clusterFindings cluster, P f)
    (hNear : ∀ near, clusters.near = some near →
      ∀ cluster ∈ near, ∀ f ∈ clusterFindings cluster, P f) :
    ∀ f ∈ findings leakage clusters, P f := by
  rw [findings, List.forall_mem_append]
  constructor
  · intro f h
    obtain ⟨cluster, hCluster, h⟩ := List.mem_flatMap.mp h
    exact hExact cluster hCluster f h
  · intro f h
    obtain ⟨cluster, hCluster, h⟩ := List.mem_flatMap.mp h
    split at hCluster
    · cases hClusters : clusters.near with
      | none =>
          rw [hClusters] at hCluster
          cases hCluster
      | some near =>
          rw [hClusters] at hCluster
          exact hNear near hClusters cluster hCluster f h
    · cases hCluster

theorem CheckKind.check_of_mem_evaluate {findings : List Finding}
    (hFindings : kind.evaluate index config (ClusterSet.build index config) = .ok findings)
    (h : f ∈ findings) : f.id.check = kind := by
  cases kind with
  | integrity =>
      cases hFindings
      exact Integrity.check_of_mem_findings h
  | classDistribution =>
      simp only [evaluate] at hFindings
      split at hFindings
      · cases hFindings
      · cases hFindings
        exact ClassBalance.check_of_mem_findings h
  | bboxSanity =>
      cases hFindings
      obtain ⟨entry, _, h⟩ := List.mem_flatMap.mp h
      exact (BoxSanity.fromEntry_of_mem_entryFindings h).check
  | duplicates =>
      cases hFindings
      obtain ⟨cluster, hCluster, rfl⟩ := List.mem_map.mp h
      rw [Duplicates.check_finding, ClusterSet.kind_of_mem_exact hCluster]
      rfl
  | nearDuplicates =>
      simp only [evaluate] at hFindings
      split at hFindings
      · rename_i near hNear
        cases hFindings
        obtain ⟨cluster, hCluster, rfl⟩ := List.mem_map.mp h
        rw [Duplicates.check_finding, ClusterSet.kind_of_mem_near hNear hCluster]
        rfl
      · cases hFindings
  | leakage =>
      cases hFindings
      exact Leakage.forall_mem_findings (P := (·.id.check = .leakage))
        (fun _ _ _ => Leakage.check_of_mem_clusterFindings)
        (fun _ _ _ _ _ => Leakage.check_of_mem_clusterFindings) f h

/-- The findings of an outcome are those that its check has evaluated to. -/
theorem CheckOutcome.exists_of_mem_findings {outcome : CheckOutcome}
    (hOutcome : outcome ∈ runChecks index config) (h : f ∈ outcome.findings) :
    ∃ findings, outcome.kind.evaluate index config (ClusterSet.build index config) = .ok findings ∧
      f ∈ findings := by
  obtain ⟨kind, _, rfl⟩ := List.mem_map.mp hOutcome
  rw [kind_ofCheck]
  unfold ofCheck at h
  split at h
  · split at h
    · rename_i findings hFindings
      exact ⟨findings, hFindings, h⟩
    · cases h
  · cases h

/-- Every finding of a run is of a kind that belongs to the check that made it. -/
theorem CheckOutcome.check_of_mem_runChecks {outcome : CheckOutcome}
    (hOutcome : outcome ∈ runChecks index config) (h : f ∈ outcome.findings) :
    f.id.check = outcome.kind := by
  obtain ⟨findings, hFindings, h⟩ := exists_of_mem_findings hOutcome h
  exact CheckKind.check_of_mem_evaluate hFindings h

end Outcomes

end DatasetAudit
