import DatasetAudit.Proofs.Check.Apart
import DatasetAudit.Proofs.Cluster.Separate
import DatasetAudit.Proofs.Report.Agreement
import Mathlib.Data.List.Sigma

/-! The findings of all checks of a run can be told from each other. Findings about classes name them,
and clusters of one kind have no image in common. -/

namespace DatasetAudit

open Finding (ToldApart OfKinds)
open Fingerprint (mark)

namespace ClassBalance

variable {config : ClassDistributionConfig} {index : Index} {classId other : Nat} {a : Finding}

/-- The number of a class stands in front of its name, if it has one. -/
theorem toList_classText (index : Index) (classId : Nat) (rest : List Char) :
    ∃ rest', (classText index classId).toList ++ ' ' :: rest =
      (toString classId).toList ++ ' ' :: rest' := by
  rw [classText]
  split
  · rename_i name _
    refine ⟨'(' :: (name.toList ++ ')' :: ' ' :: rest), ?_⟩
    change (toString classId ++ " (" ++ name ++ ")").toList ++ ' ' :: rest = _
    simp
  · exact ⟨rest, rfl⟩

/-- A finding about a class, with which its message begins. -/
structure AboutClass (index : Index) (classId : Nat) (finding : Finding) : Prop where
  kind : finding.id = .classImbalanceHigh ∨ finding.id = .classLowSupport
  message : ∃ rest, finding.message.toList =
    "Class ".toList ++ ((classText index classId).toList ++ ' ' :: rest)
  fingerprint : finding.fingerprint = DatasetAudit.fingerprint finding.id [toString classId]

namespace AboutClass

/-- The number of a class is read off the message. -/
theorem classNumber_eq (h : AboutClass index classId a) : a.classNumber = toString classId := by
  obtain ⟨rest, hMessage⟩ := h.message
  obtain ⟨rest', hRest⟩ := toList_classText index classId rest
  have hDigits : ∀ c ∈ (toString classId).toList, c.isDigit = true := by
    intro c hc
    by_contra hNot
    exact Text.notMem_toString (by simpa using hNot) classId hc
  rw [Finding.classNumber, hMessage, hRest, List.drop_left' (by rfl),
    List.takeWhile_append_of_pos hDigits, List.takeWhile_cons_of_neg (by decide), List.append_nil,
    String.ofList_toList]

theorem subject_eq (h : AboutClass index classId a) : a.subject = [toString classId] := by
  rcases h.kind with hId | hId <;> rw [Finding.subject, hId, h.classNumber_eq]

theorem marked (h : AboutClass index classId a) : a.Marked := by
  refine ⟨h.subject_eq ▸ h.fingerprint, ?_⟩
  rw [h.subject_eq]
  exact List.forall_mem_singleton.mpr (Text.notMem_toString rfl classId)

end AboutClass

theorem aboutClass_imbalance (total : UInt64) (classId : Nat) (share : Float) :
    AboutClass index classId (imbalance config index total classId share) := by
  let percent := Decimal.fixedText 1 (share * 100)
  refine ⟨.inl rfl, ⟨"holds ".toList ++ (percent.toList ++ "% of all instances.".toList), ?_⟩, rfl⟩
  change ("Class " ++ classText index classId ++ " holds " ++ percent ++
    "% of all instances.").toList = _
  simp

theorem aboutClass_lowSupport (classId : Nat) (count : UInt64) :
    AboutClass index classId (lowSupport config index classId count) := by
  let limit := toString config.minInstancesPerClassWarn.toNat
  refine ⟨.inr rfl, ⟨"has ".toList ++ ((toString count.toNat).toList ++
    (" instances, below ".toList ++ (limit.toList ++ ".".toList))), ?_⟩, rfl⟩
  change ("Class " ++ classText index classId ++ " has " ++ toString count.toNat ++
    " instances, below " ++ limit ++ ".").toList = _
  simp

theorem lowSupport_classes_nodup (h : ClassHistogram) (limit : UInt64) :
    ((h.lowSupport limit).map Prod.fst).Nodup := by
  rw [ClassHistogram.lowSupport, List.map_map]
  exact (List.nodup_zipIdx_map_snd h.counts).sublist (List.filter_sublist.map _)

theorem marked_drift (config : ClassDistributionConfig) (target : Split) (divergence : Float) :
    (drift config target divergence).Marked :=
  ⟨rfl, List.forall_mem_singleton.mpr (Split.mark_notMem_name target)⟩

/-- Classes are told apart by their numbers, and splits by their names. -/
theorem toldApart_findings (config : ClassDistributionConfig) (index : Index) :
    ToldApart (findings config index) := by
  have hImbalance (total : ClassHistogram) :
      OfKinds [.classImbalanceHigh] (imbalance? config index total).toList := by
    apply OfKinds.of_option
    intro a ha
    obtain ⟨⟨classId, share⟩, -, rfl⟩ := Option.map_eq_some_iff.mp ha
    exact ⟨(aboutClass_imbalance _ classId share).marked, rfl⟩
  have hLowSupport (classes : List (Nat × UInt64)) (hClasses : (classes.map Prod.fst).Nodup) :
      OfKinds [.classLowSupport]
        (classes.map fun low => lowSupport config index low.1 low.2) := by
    refine ⟨.map (fun low _ => (aboutClass_lowSupport low.1 low.2).marked) ?_,
      List.forall_mem_map.mpr fun _ _ => List.mem_cons_self⟩
    apply (List.pairwise_map.mp hClasses).imp
    rintro ⟨classId, count⟩ ⟨other, count'⟩ hClass _ hSubject
    rw [(aboutClass_lowSupport classId count).subject_eq,
      (aboutClass_lowSupport other count').subject_eq] at hSubject
    exact hClass (Text.toString_injective (List.cons.inj hSubject).1)
  have hDrift (distribution : Distribution) : OfKinds [.classSplitDrift]
      (Split.evaluation.filterMap (drift? config distribution)) := by
    have hSplits : Split.evaluation.Nodup := by decide
    refine ⟨.filterMap (fun target _ a ha => ?_) (hSplits.imp fun hNe a ha b hb _ hSubject => ?_),
      fun a ha => ?_⟩
    · obtain ⟨divergence, -, rfl⟩ := Option.map_eq_some_iff.mp ha
      exact marked_drift config target divergence
    · obtain ⟨divergence, -, rfl⟩ := Option.map_eq_some_iff.mp ha
      obtain ⟨divergence', -, rfl⟩ := Option.map_eq_some_iff.mp hb
      exact hNe (Split.name_injective (List.cons.inj hSubject).1)
    · obtain ⟨target, -, ha⟩ := List.mem_filterMap.mp ha
      obtain ⟨divergence, -, rfl⟩ := Option.map_eq_some_iff.mp ha
      exact List.mem_cons_self
  have hClasses := lowSupport_classes_nodup (Distribution.ofIndex index).total
    config.minInstancesPerClassWarn
  exact (((hImbalance _).append (hLowSupport _ hClasses) (by decide)).append (hDrift _)
    (by decide)).apart

end ClassBalance

section Clusters

variable {kind : ClusterKind} {index : Index} {clusters : List Cluster} {cluster other : Cluster}

/-- Images without the separator have identities without it. -/
theorem Cluster.Separate.mark_notMem_identities (h : Cluster.Separate kind index clusters)
    (hImages : ∀ entry ∈ index.entries, mark ∉ entry.image.toList) (hCluster : cluster ∈ clusters)
    (splits : List Split) : ∀ part ∈ cluster.identities splits, mark ∉ part.toList := by
  intro part hPart
  obtain ⟨member, hMember, rfl⟩ := List.mem_map.mp hPart
  obtain ⟨group, hGathers, hGroup, -⟩ := h.gathers cluster hCluster
  obtain ⟨entry, hEntry, rfl⟩ := hGathers.mem_members.mp (List.mem_of_mem_filter hMember)
  change mark ∉ (entry.split.name ++ ":" ++ entry.image).toList
  rw [String.toList_append, String.toList_append, List.mem_append, List.mem_append, not_or, not_or]
  exact ⟨⟨Split.mark_notMem_name entry.split, by decide⟩, hImages entry (hGroup hEntry)⟩

namespace Duplicates

theorem subject_finding (cluster : Cluster) :
    (finding cluster).subject = cluster.identities [] := by
  have hMembers : (finding cluster).metricTexts "members" = cluster.identities [] := by
    apply Finding.metricTexts_ofTexts
    cases hDistance : cluster.maxDistance <;>
      simp only [Finding.metric?, finding, metrics, Cluster.evidence, hDistance] <;> rfl
  have hId : (finding cluster).id = findingId cluster.kind cluster.scope := rfl
  rw [← hMembers, Finding.subject, hId]
  cases cluster.kind <;> cases cluster.scope <;> rfl

theorem toldApart_clusters (h : Cluster.Separate kind index clusters)
    (hImages : ∀ entry ∈ index.entries, mark ∉ entry.image.toList) :
    ToldApart (clusters.map finding) := by
  refine .map (fun cluster hCluster => ⟨?_, ?_⟩) (h.apart.imp_of_mem ?_)
  · rw [subject_finding]
    rfl
  · rw [subject_finding]
    exact h.mark_notMem_identities hImages hCluster []
  · intro cluster other hCluster _ hApart _ hSubject
    rw [subject_finding, subject_finding] at hSubject
    refine Cluster.identities_ne hApart ?_ hSubject
    obtain ⟨group, hGathers, -, hSome⟩ := h.gathers cluster hCluster
    obtain ⟨entry, hEntry⟩ := List.exists_mem_of_ne_nil _ hSome
    rw [Cluster.identities_nil, List.map_eq_nil_iff.ne]
    exact List.ne_nil_of_mem (hGathers.mem_members.mpr ⟨entry, hEntry, rfl⟩)

end Duplicates

namespace Leakage

variable {group : List IndexEntry} {target : Split} {a : Finding}

theorem subject_of_reports (hTarget : target ∈ Split.evaluation)
    (h : Reports group target (findingId kind target) a) : a.subject =
      (imagesOf group .train).map (identityIn .train) ++
        (imagesOf group target).map (identityIn target) := by
  rw [← Finding.metricTexts_ofTexts h.trainImages, ← Finding.metricTexts_ofTexts h.evalImages,
    Finding.subject, h.named, h.split]
  cases kind <;> cases target <;> simp [Split.evaluation, findingId] at hTarget ⊢

/-- What a finding is about are the members of its cluster in the two splits. -/
theorem subject_of_finding? (hGathers : cluster.Gathers group) (hTarget : target ∈ Split.evaluation)
    (h : finding? cluster target = some a) : a.subject = cluster.identities [.train, target] := by
  rw [subject_of_reports hTarget (reports_of_finding? hGathers hTarget h),
    hGathers.identities_eq (train_lt_of_mem_evaluation hTarget)]

theorem identities_ne_nil (h : finding? cluster target = some a) :
    cluster.identities [.train, target] ≠ [] := by
  unfold finding? at h
  split at h
  · rename_i hTrain
    obtain ⟨member, hMember, hSplit⟩ := Cluster.mem_splits.mp hTrain
    rw [Cluster.identities, List.map_eq_nil_iff.ne]
    exact List.ne_nil_of_mem (List.mem_filter.mpr ⟨hMember, by simp [hSplit]⟩)
  · cases h

theorem toldApart_clusterFindings (h : Cluster.Separate kind index clusters)
    (hImages : ∀ entry ∈ index.entries, mark ∉ entry.image.toList) (hCluster : cluster ∈ clusters) :
    ToldApart (clusterFindings cluster) := by
  obtain ⟨group, hGathers, -⟩ := h.gathers cluster hCluster
  have hTargets : Split.evaluation.Nodup := by decide
  rw [clusterFindings_eq]
  refine .filterMap (fun target hTarget a ha => ⟨?_, ?_⟩) (hTargets.imp_of_mem ?_)
  · have hReports := reports_of_finding? hGathers hTarget ha
    rw [subject_of_reports hTarget hReports, hReports.named]
    exact hReports.fingerprint
  · rw [subject_of_finding? hGathers hTarget ha]
    exact h.mark_notMem_identities hImages hCluster _
  · intro target target' hTarget hTarget' hNe a ha b hb hId
    have hPair : (target, a.id) ∈ pairIds cluster.kind :=
      mem_pairIds.mpr ⟨hTarget, (finding?_id ha).symm⟩
    have hPair' : (target', a.id) ∈ pairIds cluster.kind :=
      mem_pairIds.mpr ⟨hTarget', (finding?_id hb).symm.trans hId.symm⟩
    exact absurd (pairIds_unique hPair hPair').2 hNe

/-- The kinds of findings about clusters of a kind. -/
def idsOf (kind : ClusterKind) : List FindingId :=
  (pairIds kind).map Prod.snd

theorem ofKinds_clusters (h : Cluster.Separate kind index clusters)
    (hImages : ∀ entry ∈ index.entries, mark ∉ entry.image.toList) :
    OfKinds (idsOf kind) (clusters.flatMap clusterFindings) := by
  refine .flatMap (fun cluster hCluster => ⟨toldApart_clusterFindings h hImages hCluster, ?_⟩)
    (h.apart.imp_of_mem ?_)
  · intro a ha
    obtain ⟨target, hPair, -⟩ := exists_of_mem_clusterFindings ha
    rw [h.kind cluster hCluster] at hPair
    exact List.mem_map.mpr ⟨_, hPair, rfl⟩
  intro cluster other hCluster hOther hApart a ha b hb hId hSubject
  obtain ⟨group, hGathers, -⟩ := h.gathers cluster hCluster
  obtain ⟨group', hGathers', -⟩ := h.gathers other hOther
  obtain ⟨target, hPair, ha⟩ := exists_of_mem_clusterFindings ha
  obtain ⟨target', hPair', hb⟩ := exists_of_mem_clusterFindings hb
  obtain rfl : target = target' := (pairIds_unique hPair (hId ▸ hPair')).2
  have hTarget := (mem_pairIds.mp hPair).1
  rw [subject_of_finding? hGathers hTarget ha, subject_of_finding? hGathers' hTarget hb] at hSubject
  exact Cluster.identities_ne hApart (identities_ne_nil ha) hSubject

end Leakage

end Clusters

section Run

variable {index : Index} {config : Config} {kind : CheckKind}

/-- Identical and similar images are told apart by the kinds of the findings about them. -/
theorem Leakage.toldApart_findings (h : index.Named) (leakage : LeakageConfig) :
    ToldApart (findings leakage (ClusterSet.build index config)) := by
  have hExact := ClusterSet.separate_exact config h.keys
  have hNear : Cluster.Separate .near index (if leakage.includeNearDup then
      (ClusterSet.build index config).near.getD [] else []) := by
    split
    · cases hSome : (ClusterSet.build index config).near with
      | none => exact .nil .near index
      | some near => exact ClusterSet.separate_near config h.keys hSome
    · exact .nil .near index
  exact ((ofKinds_clusters hExact h.images).append (ofKinds_clusters hNear h.images)
    (by decide)).apart

theorem CheckKind.toldApart_evaluate (h : index.Named) {findings : List Finding}
    (hFindings : kind.evaluate index config (ClusterSet.build index config) = .ok findings) :
    ToldApart findings := by
  cases kind with
  | integrity =>
      cases hFindings
      exact Integrity.toldApart_findings h
  | classDistribution =>
      simp only [evaluate] at hFindings
      split at hFindings
      · cases hFindings
      · cases hFindings
        exact ClassBalance.toldApart_findings _ index
  | bboxSanity =>
      cases hFindings
      exact BoxSanity.toldApart_findings h
  | duplicates =>
      cases hFindings
      exact Duplicates.toldApart_clusters (ClusterSet.separate_exact config h.keys) h.images
  | nearDuplicates =>
      simp only [evaluate] at hFindings
      split at hFindings
      · rename_i near hNear
        cases hFindings
        exact Duplicates.toldApart_clusters (ClusterSet.separate_near config h.keys hNear) h.images
      · cases hFindings
  | leakage =>
      cases hFindings
      exact Leakage.toldApart_findings h _

theorem CheckOutcome.toldApart_ofCheck (h : index.Named) (config : Config) (kind : CheckKind) :
    ToldApart (ofCheck index config (ClusterSet.build index config) kind).findings := by
  unfold ofCheck
  split
  · split
    · rename_i findings hFindings
      exact CheckKind.toldApart_evaluate h hFindings
    · exact .nil
  · exact .nil

/-- The findings of a run, one check after the other. -/
def runFindings (index : Index) (config : Config) : List Finding :=
  (runChecks index config).flatMap (·.findings)

/-- A kind of finding belongs to one check, so that findings of different checks differ. -/
theorem toldApart_runFindings (h : index.Named) (config : Config) :
    ToldApart (runFindings index config) := by
  have hKinds : ((runChecks index config).map CheckOutcome.kind).Nodup := by
    rw [Report.map_kind_runChecks]
    exact CheckKind.all_nodup
  refine .flatMap (fun outcome hOutcome => ?_) ((List.pairwise_map.mp hKinds).imp_of_mem ?_)
  · obtain ⟨kind, -, rfl⟩ := List.mem_map.mp hOutcome
    exact CheckOutcome.toldApart_ofCheck h config kind
  · intro outcome other hOutcome hOther hKind a ha b hb hId
    have hCheck := CheckOutcome.check_of_mem_runChecks hOutcome ha
    rw [hId, CheckOutcome.check_of_mem_runChecks hOther hb] at hCheck
    exact absurd hCheck.symm hKind

end Run

end DatasetAudit
