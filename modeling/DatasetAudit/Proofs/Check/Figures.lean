import DatasetAudit.Proofs.Artifact.Finding
import DatasetAudit.Proofs.Check.Origin
import DatasetAudit.Proofs.Image.Hamming

/-! The figures in findings. Whatever a dataset holds, every finding of a run can be written and read
back: its figures are named in order, a number that has no text of its own stands as null, and a
count is at most a number of entries, of rows or of classes. -/

namespace DatasetAudit

namespace Json

theorem flat_string (text : String) : (Json.string text).Flat :=
  .inl trivial

theorem flat_ofTexts (texts : List String) : (Json.ofTexts texts).Flat :=
  .inr ⟨_, rfl, List.forall_mem_map.mpr fun _ _ => trivial⟩

theorem flat_ofNat {n : Nat} (h : n < UInt64.size) : (Json.ofNat n).Flat :=
  .inl (readable_ofNat h)

theorem flat_uint64 (n : UInt64) : (Json.ofNat n.toNat).Flat :=
  flat_ofNat n.toNat_lt_size

theorem flat_uint32 (n : UInt32) : (Json.ofNat n.toNat).Flat :=
  flat_ofNat (n.toNat_lt_size.trans_le (by decide))

/-- What is not finite stands as null. -/
theorem scalar_ofFloat (x : Float) : (Json.ofFloat x).Scalar := by
  unfold ofFloat
  split
  · assumption
  · trivial

theorem flat_ofFloat (x : Float) : (Json.ofFloat x).Flat :=
  .inl (scalar_ofFloat x)

theorem flat_ofFloats (values : List Float) : (Json.array (values.map Json.ofFloat)).Flat :=
  .inr ⟨_, rfl, List.forall_mem_map.mpr fun x _ => scalar_ofFloat x⟩

/-- The names of figures are known before their values are. -/
theorem isFigures_object {members : List (String × Json)} (names : List String)
    (hNames : members.map (·.1) = names) (hAscending : Ascending (fun name => name) names)
    (hFlat : ∀ member ∈ members, member.2.Flat) : (Json.object members).IsFigures := by
  refine ⟨members, rfl, ?_, hFlat⟩
  rw [← hNames, Ascending, List.pairwise_map] at hAscending
  exact hAscending

end Json

open Json

/-- Whether the figures of a finding are scalars and arrays of scalars. -/
def Finding.HasFigures (finding : Finding) : Prop :=
  ∀ metrics ∈ finding.metrics, metrics.IsFigures

namespace Finding.HasFigures

variable {finding : Finding}

theorem none (h : finding.metrics = Option.none) : finding.HasFigures := by
  intro metrics hMetrics
  rw [h] at hMetrics
  cases hMetrics

theorem object {members : List (String × Json)} (names : List String)
    (h : finding.metrics = some (.object members)) (hNames : members.map (·.1) = names)
    (hAscending : Ascending (fun name => name) names) (hFlat : ∀ member ∈ members, member.2.Flat) :
    finding.HasFigures := by
  intro metrics hMetrics
  rw [h] at hMetrics
  cases hMetrics
  exact isFigures_object names hNames hAscending hFlat

theorem ofClass {row : AnnotationRow} (h : finding.HasFigures) :
    (finding.ofClass row).HasFigures := by
  unfold Finding.ofClass
  split
  · exact h
  · exact h

end Finding.HasFigures

section Entries

variable {entry : IndexEntry}

theorem Integrity.hasFigures_of_mem_entryFindings {classCount : Nat}
    (hClasses : classCount < UInt64.size) :
    ∀ f ∈ entryFindings entry classCount, f.HasFigures := by
  apply forall_mem_entryFindings
  · exact .none rfl
  · exact fun _ => .none rfl
  · intro reason
    apply Finding.HasFigures.object ["line", "reason"] rfl rfl (by decide)
    simp only [List.forall_mem_cons]
    exact ⟨flat_ofNat (by decide), flat_string _, List.forall_mem_nil _⟩
  · intro error
    apply Finding.HasFigures.object ["line", "raw", "reason"] rfl rfl (by decide)
    simp only [List.forall_mem_cons]
    exact ⟨flat_uint32 error.line, flat_string _, flat_string _, List.forall_mem_nil _⟩
  · intro row
    apply Finding.HasFigures.object ["class_count", "line"] rfl rfl (by decide)
    simp only [List.forall_mem_cons]
    exact ⟨flat_ofNat hClasses, flat_uint32 row.line, List.forall_mem_nil _⟩
  · intro row
    apply Finding.HasFigures.ofClass
    apply Finding.HasFigures.object ["annotation_type", "line", "values"] rfl rfl (by decide)
    simp only [List.forall_mem_cons]
    exact ⟨flat_string _, flat_uint32 row.line, flat_ofFloats _, List.forall_mem_nil _⟩

/-- A limit that rows have passed is smaller than their number. -/
theorem BoxSanity.hasFigures_of_mem_entryFindings {config : BoxSanityConfig}
    (hRows : entry.labels.rows.length < UInt64.size) :
    ∀ f ∈ entryFindings config entry, f.HasFigures := by
  have hArea {id : FindingId} {row : AnnotationRow} {text : String} {area limit : Float} :
      (boxFinding id entry row text (areaMetrics row area limit)).HasFigures := by
    apply Finding.HasFigures.ofClass
    apply Finding.HasFigures.object ["area", "line", "threshold"] rfl rfl (by decide)
    simp only [areaMetrics, List.forall_mem_cons]
    exact ⟨flat_ofFloat _, flat_uint32 row.line, flat_ofFloat _, List.forall_mem_nil _⟩
  apply forall_mem_entryFindings
  · intro hCount
    apply Finding.HasFigures.object ["count", "threshold"] rfl rfl (by decide)
    simp only [List.forall_mem_cons]
    exact ⟨flat_ofNat hRows, flat_ofNat (hCount.trans hRows), List.forall_mem_nil _⟩
  · exact fun _ _ => hArea
  · exact fun _ _ => hArea
  · intro row aspect
    apply Finding.HasFigures.ofClass
    apply Finding.HasFigures.object ["aspect_ratio", "line", "threshold"] rfl rfl (by decide)
    simp only [List.forall_mem_cons]
    exact ⟨flat_ofFloat _, flat_uint32 row.line, flat_ofFloat _, List.forall_mem_nil _⟩

end Entries

theorem ClassBalance.hasFigures_of_mem_findings {config : ClassDistributionConfig}
    {index : Index} : ∀ f ∈ findings config index, f.HasFigures := by
  apply forall_mem_findings
  · intro total classId share
    apply Finding.HasFigures.object ["dominant_share", "threshold", "total_instances"] rfl rfl
      (by decide)
    simp only [List.forall_mem_cons]
    exact ⟨flat_ofFloat _, flat_ofFloat _, flat_uint64 total, List.forall_mem_nil _⟩
  · intro classId count
    apply Finding.HasFigures.object ["count", "threshold"] rfl rfl (by decide)
    simp only [List.forall_mem_cons]
    exact ⟨flat_uint64 count, flat_uint64 _, List.forall_mem_nil _⟩
  · intro target divergence
    apply Finding.HasFigures.object
      ["high_threshold", "jsd", "reference_split", "target_split", "warn_threshold"] rfl rfl
      (by decide)
    simp only [List.forall_mem_cons]
    exact ⟨flat_ofFloat _, flat_ofFloat _, flat_string _, flat_string _, flat_ofFloat _,
      List.forall_mem_nil _⟩

section Clusters

variable {index : Index} {config : Config} {cluster : Cluster}

/-- Whether the number of members and the distance between them fit into sixty-four bits. -/
structure Cluster.Fits (cluster : Cluster) : Prop where
  members : cluster.members.length < UInt64.size
  distance : ∀ distance ∈ cluster.maxDistance, distance < UInt64.size

/-- The digest or the distance stands under a name of its own, but in the same place. -/
theorem Duplicates.hasFigures_finding (h : cluster.Fits) : (finding cluster).HasFigures := by
  cases hDistance : cluster.maxDistance with
  | none =>
      apply Finding.HasFigures.object ["cluster_size", "members", "sha256", "splits"]
        (by simp only [finding, metrics, Cluster.evidence, hDistance]; rfl) rfl
        (by decide)
      simp only [List.forall_mem_cons]
      exact ⟨flat_ofNat h.members, flat_ofTexts _, flat_string _, flat_ofTexts _, List.forall_mem_nil _⟩
  | some distance =>
      apply Finding.HasFigures.object ["cluster_size", "max_hamming_distance", "members", "splits"]
        (by simp only [finding, metrics, Cluster.evidence, hDistance]; rfl) rfl
        (by decide)
      simp only [List.forall_mem_cons]
      exact ⟨flat_ofNat h.members, flat_ofNat (h.distance distance hDistance), flat_ofTexts _,
        flat_ofTexts _, List.forall_mem_nil _⟩

theorem Leakage.hasFigures_of_mem_clusterFindings (h : cluster.Fits) :
    ∀ f ∈ clusterFindings cluster, f.HasFigures := by
  intro f hFinding
  obtain ⟨⟨origin, target⟩, _, hFinding⟩ := List.mem_filterMap.mp hFinding
  obtain ⟨first, _, rfl⟩ := Option.map_eq_some_iff.mp hFinding
  cases hDistance : cluster.maxDistance with
  | none =>
      apply Finding.HasFigures.object ["eval_images", "sha256", "train_images"]
        (by simp only [finding, Cluster.evidence, hDistance]; rfl) rfl
        (by decide)
      simp only [List.forall_mem_cons]
      exact ⟨flat_ofTexts _, flat_string _, flat_ofTexts _, List.forall_mem_nil _⟩
  | some distance =>
      apply Finding.HasFigures.object ["eval_images", "max_hamming_distance", "train_images"]
        (by simp only [finding, Cluster.evidence, hDistance]; rfl) rfl
        (by decide)
      simp only [List.forall_mem_cons]
      exact ⟨flat_ofTexts _, flat_ofNat (h.distance distance hDistance), flat_ofTexts _,
        List.forall_mem_nil _⟩

theorem fits_of_mem_exactClusters (hEntries : index.entries.length < UInt64.size)
    (h : cluster ∈ exactClusters index) : cluster.Fits := by
  obtain ⟨hash, _, rfl⟩ := mem_exactClusters.mp h
  refine ⟨?_, fun distance hDistance => by cases hDistance⟩
  calc (copiesCluster index hash).members.length
      ≤ ((copies index hash).map ClusterMember.ofEntry).length :=
        length_firstOfRuns_sortByKey_le _ _
    _ = (copies index hash).length := List.length_map _
    _ ≤ index.entries.length := List.length_filter_le _ _
    _ < UInt64.size := hEntries

namespace Near

/-- No two hashes are further apart than they are long. -/
theorem maxDistance?_le {hashes : List UInt64} {distance : Nat}
    (h : maxDistance? hashes = some distance) : distance ≤ 64 := by
  obtain ⟨hMem, _⟩ := List.max?_eq_some_iff.mp h
  obtain ⟨⟨a, b⟩, _, rfl⟩ := List.mem_map.mp hMem
  change hamming a b ≤ 64
  rw [hamming_eq_countP]
  exact List.countP_le_length.trans_eq List.length_range

theorem length_le_of_mem_linkedGroups {threshold : Nat} {group : List HashedEntry}
    (h : group ∈ linkedGroups index threshold) : group.length ≤ index.entries.length := by
  obtain ⟨positions, hPositions, rfl⟩ := List.mem_map.mp h
  obtain ⟨⟨p, _, rfl⟩, _⟩ := mem_groups.mp hPositions
  calc _ ≤ _ := List.length_filterMap_le _ _
    _ ≤ _ := List.length_filter_le _ _
    _ = ((hashedEntries index).map (·.2)).length := List.length_range
    _ = (hashedEntries index).length := List.length_map _
    _ ≤ index.entries.length := List.length_filterMap_le _ _

theorem length_members_le_of_cluster? {group : List HashedEntry} (h : cluster? group = some cluster) :
    cluster.members.length ≤ group.length ∧
      cluster.maxDistance = maxDistance? (group.map (·.2)) := by
  unfold cluster? at h
  split at h
  · obtain rfl := Option.some.inj h
    exact ⟨(length_firstOfRuns_sortByKey_le _ _).trans_eq (List.length_map _), rfl⟩
  · cases h

theorem fits_of_mem_nearClusters {threshold : Nat}
    (hEntries : index.entries.length < UInt64.size)
    (h : cluster ∈ nearClusters index threshold) : cluster.Fits := by
  rw [nearClusters_eq_filterMap] at h
  obtain ⟨group, hGroup, hCluster⟩ := List.mem_filterMap.mp h
  obtain ⟨hLength, hMax⟩ := length_members_le_of_cluster? hCluster
  refine ⟨?_, fun distance hDistance => ?_⟩
  · exact (hLength.trans (length_le_of_mem_linkedGroups hGroup)).trans_lt hEntries
  · exact (maxDistance?_le (hMax.symm.trans hDistance)).trans_lt (by decide)

end Near

end Clusters

/-- Whether the numbers of entries, of classes and of the rows of a label file fit into sixty-four
bits. -/
structure Index.Fits (index : Index) : Prop where
  entries : index.entries.length < UInt64.size
  classes : index.classCount < UInt64.size
  rows : ∀ entry ∈ index.entries, entry.labels.rows.length < UInt64.size

instance (index : Index) : Decidable index.Fits :=
  decidable_of_iff (index.entries.length < UInt64.size ∧ index.classCount < UInt64.size ∧
      ∀ entry ∈ index.entries, entry.labels.rows.length < UInt64.size)
    ⟨fun h => ⟨h.1, h.2.1, h.2.2⟩, fun h => ⟨h.entries, h.classes, h.rows⟩⟩

variable {index : Index} {config : Config}

theorem CheckKind.hasFigures_of_mem_evaluate {kind : CheckKind} {findings : List Finding}
    (hFits : index.Fits)
    (h : kind.evaluate index config (ClusterSet.build index config) = .ok findings) :
    ∀ f ∈ findings, f.HasFigures := by
  cases kind with
  | integrity =>
      cases h
      exact Integrity.forall_mem_findings
        (fun _ _ => Integrity.hasFigures_of_mem_entryFindings hFits.classes)
        (fun _ _ => .none rfl)
  | classDistribution =>
      simp only [evaluate] at h
      split at h
      · cases h
      · cases h
        exact ClassBalance.hasFigures_of_mem_findings
  | bboxSanity =>
      cases h
      intro f hFinding
      obtain ⟨entry, hEntry, hFinding⟩ := List.mem_flatMap.mp hFinding
      exact BoxSanity.hasFigures_of_mem_entryFindings (hFits.rows entry hEntry) f hFinding
  | duplicates =>
      cases h
      refine List.forall_mem_map.mpr fun cluster hCluster => ?_
      exact Duplicates.hasFigures_finding
        (fits_of_mem_exactClusters hFits.entries (ClusterSet.mem_exactClusters_of_mem hCluster))
  | nearDuplicates =>
      simp only [evaluate] at h
      split at h
      · rename_i near hNear
        cases h
        refine List.forall_mem_map.mpr fun cluster hCluster => ?_
        rw [ClusterSet.near_eq_nearClusters hNear] at hCluster
        exact Duplicates.hasFigures_finding (Near.fits_of_mem_nearClusters hFits.entries hCluster)
      · cases h
  | leakage =>
      cases h
      apply Leakage.forall_mem_findings
      · intro cluster hCluster
        exact Leakage.hasFigures_of_mem_clusterFindings
          (fits_of_mem_exactClusters hFits.entries (ClusterSet.mem_exactClusters_of_mem hCluster))
      · intro near hNear cluster hCluster
        rw [ClusterSet.near_eq_nearClusters hNear] at hCluster
        exact Leakage.hasFigures_of_mem_clusterFindings
          (Near.fits_of_mem_nearClusters hFits.entries hCluster)

/-- Every finding of a run can be written and read back. -/
theorem hasFigures_of_mem_runChecks (config : Config) (hFits : index.Fits) :
    ∀ f ∈ (runChecks index config).flatMap (·.findings), f.HasFigures := by
  intro f h
  obtain ⟨outcome, hOutcome, h⟩ := List.mem_flatMap.mp h
  obtain ⟨findings, hFindings, h⟩ := CheckOutcome.exists_of_mem_findings hOutcome h
  exact CheckKind.hasFigures_of_mem_evaluate hFits hFindings f h

end DatasetAudit
