import DatasetAudit.Json.Record
import DatasetAudit.Proofs.Check.Outcome
import DatasetAudit.Proofs.Cluster.Component
import DatasetAudit.Proofs.Cluster.Exact

/-! Leakage from the training split into the evaluation splits. A cluster has a finding for an
evaluation split exactly if its entries reach there from the training split, and the finding lists
the images on both sides. Identical images are covered by the exact clusters, whatever is asked of
near duplicates, and similar ones by the exact and the near clusters together. -/

namespace DatasetAudit

namespace Finding

/-- A value among the metrics of a finding. -/
def metric? (finding : Finding) (name : String) : Option Json :=
  finding.metrics.bind (Json.member? name)

/-- The digest that the images of a finding share. -/
def sharedHash? (finding : Finding) : Option String :=
  (finding.metric? "sha256").bind Json.string?

end Finding

namespace Leakage

/-- The evaluation splits with the kinds of the findings about them. -/
def pairIds : ClusterKind → List (Split × FindingId)
  | .exact => [(.val, .leakageExactTrainVal), (.test, .leakageExactTrainTest)]
  | .near => [(.val, .leakageNearTrainVal), (.test, .leakageNearTrainTest)]

/-- The kinds of findings about images with the same bytes. -/
def exactIds : List FindingId :=
  (pairIds .exact).map (·.2)

/-- Some entries lie in the training split and some in an evaluation split. -/
def Reaches (group : List IndexEntry) (target : Split) : Prop :=
  (∃ entry ∈ group, entry.split = .train) ∧ ∃ entry ∈ group, entry.split = target

theorem two_le_length_of_reaches {group : List IndexEntry} {target : Split}
    (hTarget : target ∈ Split.evaluation) (hReaches : Reaches group target) :
    2 ≤ group.length := by
  obtain ⟨⟨a, ha, hTrain⟩, ⟨b, hb, hThere⟩⟩ := hReaches
  apply two_le_length_of_ne ha hb
  rintro rfl
  rw [← hThere, hTrain] at hTarget
  simp [Split.evaluation] at hTarget

/-- What a finding says about entries that reach into an evaluation split. -/
structure Reports (group : List IndexEntry) (target : Split) (id : FindingId)
    (finding : Finding) : Prop where
  named : finding.id = id
  severity : finding.severity = id.entry.severity
  split : finding.split = some target
  image : finding.image = (imagesOf group target).head?
  trainImages : finding.metric? "train_images" = some (.ofTexts (imagesOf group .train))
  evalImages : finding.metric? "eval_images" = some (.ofTexts (imagesOf group target))
  fingerprint : finding.fingerprint = DatasetAudit.fingerprint id
    ((imagesOf group .train).map (identityIn .train) ++
      (imagesOf group target).map (identityIn target))

/-- The finding of a cluster about one evaluation split. -/
def finding? (cluster : Cluster) (target : Split) : Option Finding :=
  if .train ∈ cluster.splits then
    (cluster.members.find? fun member => member.split = target).map (finding cluster .train target)
  else none

section ClusterFindings

variable {cluster : Cluster} {group : List IndexEntry} {target : Split} {id : FindingId}

theorem mem_pairIds {kind : ClusterKind} :
    (target, id) ∈ pairIds kind ↔ target ∈ Split.evaluation ∧ findingId kind target = id := by
  cases kind <;> cases target <;> simp [pairIds, Split.evaluation, findingId, eq_comm]

/-- The kind of a finding tells the kind of its cluster and its evaluation split. -/
theorem pairIds_unique {kind kind' : ClusterKind} {target' : Split}
    (h : (target, id) ∈ pairIds kind) (h' : (target', id) ∈ pairIds kind') :
    kind = kind' ∧ target = target' := by
  obtain ⟨_, rfl⟩ := mem_pairIds.mp h
  cases kind <;> cases kind' <;> cases target <;> cases target' <;>
    simp [pairIds, findingId] at h h' ⊢

theorem train_lt_of_mem_evaluation (hTarget : target ∈ Split.evaluation) :
    compare Split.train target = .lt := by
  cases target <;> first | rfl | simp [Split.evaluation] at hTarget

theorem clusterFindings_eq (cluster : Cluster) :
    clusterFindings cluster = Split.evaluation.filterMap (finding? cluster) := by
  rw [clusterFindings, Cluster.leakagePairs]
  by_cases hTrain : .train ∈ cluster.splits
  · rw [if_pos (by simpa using hTrain), List.filterMap_map, ← List.filterMap_eq_filter,
      List.filterMap_filterMap]
    apply List.filterMap_congr
    intro target _
    by_cases hTarget : target ∈ cluster.splits
    · simp [finding?, hTrain, hTarget, Option.guard]
    · have hNone : (cluster.members.find? fun member => member.split = target) = none := by
        rw [List.find?_eq_none]
        intro member hMember hSplit
        exact hTarget (Cluster.mem_splits.mpr ⟨member, hMember, of_decide_eq_true hSplit⟩)
      simp [finding?, hTarget, hNone, Option.guard]
  · rw [if_neg (by simpa using hTrain)]
    simp [finding?, hTrain]

theorem finding?_id {f : Finding} (hFinding : finding? cluster target = some f) :
    f.id = findingId cluster.kind target := by
  unfold finding? at hFinding
  split at hFinding
  · obtain ⟨first, _, rfl⟩ := Option.map_eq_some_iff.mp hFinding
    rfl
  · cases hFinding

/-- A cluster without a distance is known by its digest, and so are its findings. -/
theorem finding?_sharedHash? {f : Finding} (hDistance : cluster.maxDistance = none)
    (hFinding : finding? cluster target = some f) : f.sharedHash? = some cluster.key := by
  unfold finding? at hFinding
  split at hFinding
  · obtain ⟨first, _, rfl⟩ := Option.map_eq_some_iff.mp hFinding
    simp only [Finding.sharedHash?, Finding.metric?, finding, Cluster.evidence, hDistance]
    rfl
  · cases hFinding

/-- A cluster whose entries reach into an evaluation split has a finding about it. -/
theorem finding?_of_reaches (hGathers : cluster.Gathers group) (hTarget : target ∈ Split.evaluation)
    (hReaches : Reaches group target) :
    ∃ f, finding? cluster target = some f ∧
      Reports group target (findingId cluster.kind target) f := by
  obtain ⟨hTrain, hThere⟩ := hReaches
  have hImages := hGathers.imagesIn_eq target
  have hHead : (imagesOf group target).head? =
      (cluster.members.find? fun member => member.split = target).map (·.image) := by
    rw [← hImages, Cluster.imagesIn, List.head?_map, List.head?_filter]
  obtain ⟨first, hFirst⟩ : ∃ first,
      (cluster.members.find? fun member => member.split = target) = some first := by
    obtain ⟨entry, hEntry, hSplit⟩ := hThere
    rw [← Option.isSome_iff_exists, List.find?_isSome]
    exact ⟨_, hGathers.mem_members.mpr ⟨entry, hEntry, rfl⟩, decide_eq_true hSplit⟩
  have hFinding : finding? cluster target = some (finding cluster .train target first) := by
    rw [finding?, if_pos (hGathers.mem_splits.mpr hTrain), hFirst]
    rfl
  refine ⟨_, hFinding, rfl, rfl, rfl, ?_, ?_, ?_, ?_⟩
  · rw [hHead, hFirst]
    rfl
  · rw [← hGathers.imagesIn_eq]
    -- The evidence stands between the lists, under a name of its own in either case.
    cases hDistance : cluster.maxDistance with
    | none =>
        simp only [Finding.metric?, finding, Cluster.evidence, hDistance]
        rfl
    | some distance =>
        simp only [Finding.metric?, finding, Cluster.evidence, hDistance]
        rfl
  · rw [← hImages]
    rfl
  · rw [← hGathers.identities_eq (train_lt_of_mem_evaluation hTarget)]
    rfl

theorem finding?_eq_none (hGathers : cluster.Gathers group) (hReaches : ¬Reaches group target) :
    finding? cluster target = none := by
  unfold finding?
  split
  · rename_i hTrain
    rw [Option.map_eq_none_iff, List.find?_eq_none]
    intro member hMember hSplit
    have hThere : target ∈ cluster.splits :=
      Cluster.mem_splits.mpr ⟨member, hMember, of_decide_eq_true hSplit⟩
    exact hReaches ⟨hGathers.mem_splits.mp hTrain, hGathers.mem_splits.mp hThere⟩
  · rfl

theorem reports_of_finding? {f : Finding} (hGathers : cluster.Gathers group)
    (hTarget : target ∈ Split.evaluation) (hFinding : finding? cluster target = some f) :
    Reports group target (findingId cluster.kind target) f := by
  by_cases hReaches : Reaches group target
  · obtain ⟨other, hOther, hReports⟩ := finding?_of_reaches hGathers hTarget hReaches
    rw [hFinding] at hOther
    obtain rfl := Option.some.inj hOther
    exact hReports
  · rw [finding?_eq_none hGathers hReaches] at hFinding
    cases hFinding

theorem mem_clusterFindings_of_reaches (hGathers : cluster.Gathers group)
    (hTarget : target ∈ Split.evaluation) (hReaches : Reaches group target) :
    ∃ f ∈ clusterFindings cluster, Reports group target (findingId cluster.kind target) f := by
  obtain ⟨f, hSome, hReports⟩ := finding?_of_reaches hGathers hTarget hReaches
  rw [clusterFindings_eq]
  exact ⟨f, List.mem_filterMap.mpr ⟨target, hTarget, hSome⟩, hReports⟩

theorem exists_of_mem_clusterFindings {f : Finding} (hFinding : f ∈ clusterFindings cluster) :
    ∃ target, (target, f.id) ∈ pairIds cluster.kind ∧ finding? cluster target = some f := by
  rw [clusterFindings_eq] at hFinding
  obtain ⟨target, hTarget, hSome⟩ := List.mem_filterMap.mp hFinding
  exact ⟨target, mem_pairIds.mpr ⟨hTarget, (finding?_id hSome).symm⟩, hSome⟩

/-- Among the findings of a cluster, those of a kind are the one about its split. -/
theorem clusterFindings_filter_id (hId : (target, id) ∈ pairIds cluster.kind) :
    (clusterFindings cluster).filter (fun f => f.id = id) = (finding? cluster target).toList := by
  obtain ⟨hTarget, rfl⟩ := mem_pairIds.mp hId
  have hOne (other : Split) (hOther : other ∈ Split.evaluation) :
      (finding? cluster other).filter (fun f => f.id = findingId cluster.kind target) =
        if other = target then finding? cluster target else none := by
    by_cases hEq : other = target
    · rw [if_pos hEq, hEq]
      cases hSome : finding? cluster target with
      | none => rfl
      | some f => simp [finding?_id hSome]
    · rw [if_neg hEq, Option.filter_eq_none_iff]
      intro f hSome hNamed
      rw [finding?_id hSome] at hNamed
      have hOtherId := mem_pairIds.mpr ⟨hOther, of_decide_eq_true hNamed⟩
      exact hEq (pairIds_unique hOtherId hId).2
  rw [clusterFindings_eq, List.filter_filterMap, List.filterMap_congr hOne]
  cases target <;> simp [Split.evaluation] at hTarget ⊢
  all_goals rfl

end ClusterFindings

section Findings

variable {index : Index} {config : Config}

/-- The findings of the exact clusters. -/
def exactFindings (index : Index) : List Finding :=
  (exactClusters index).flatMap clusterFindings

/-- The findings of the near clusters, if they are wanted and there are any. -/
def nearFindings (index : Index) (config : Config) : List Finding :=
  if config.checks.leakage.includeNearDup && index.perceptualHashing then
    (nearClusters index config.checks.nearDuplicates.phashHammingThreshold.toNat).flatMap
      clusterFindings
  else []

theorem findingsOf_leakage (hEnabled : config.checks.leakage.enabled = true) :
    findingsOf .leakage (runChecks index config) =
      exactFindings index ++ nearFindings index config := by
  have hFindings : Leakage.findings config.checks.leakage (ClusterSet.build index config) =
      exactFindings index ++ nearFindings index config := by
    cases hNear : config.checks.leakage.includeNearDup <;>
      cases hHashing : index.perceptualHashing <;>
        simp [Leakage.findings, ClusterSet.build, exactFindings, nearFindings,
          Config.wantsPerceptualHashes, hEnabled, hNear, hHashing]
  rw [findingsOf_runChecks]
  refine CheckOutcome.findings_ofCheck (show config.isEnabled .leakage = true from hEnabled) ?_
  rw [← hFindings]
  rfl

theorem near_of_mem_nearFindings {f : Finding} (hFinding : f ∈ nearFindings index config) :
    ∃ target, (target, f.id) ∈ pairIds .near := by
  unfold nearFindings at hFinding
  split at hFinding
  · obtain ⟨cluster, hCluster, hFinding⟩ := List.mem_flatMap.mp hFinding
    obtain ⟨target, hId, _⟩ := exists_of_mem_clusterFindings hFinding
    exact ⟨target, Near.kind_of_mem_nearClusters hCluster ▸ hId⟩
  · cases hFinding

theorem exact_of_mem_exactFindings {f : Finding} (hFinding : f ∈ exactFindings index) :
    (∃ target, (target, f.id) ∈ pairIds .exact) ∧ f.sharedHash?.isSome := by
  obtain ⟨cluster, hCluster, hFinding⟩ := List.mem_flatMap.mp hFinding
  obtain ⟨hash, _, rfl⟩ := mem_exactClusters.mp hCluster
  obtain ⟨target, hId, hSome⟩ := exists_of_mem_clusterFindings hFinding
  refine ⟨⟨target, hId⟩, ?_⟩
  rw [finding?_sharedHash? rfl hSome]
  rfl

end Findings

end Leakage

end DatasetAudit
