import DatasetAudit.Proofs.Check.Leakage

/-! Leakage of similar images. The near clusters leave out groups with the same bytes only, and
these are what the exact clusters find, so that the two together miss no pair of alike images. -/

namespace DatasetAudit.Leakage

/-- The finding lists an image of the training split and one of an evaluation split. -/
def Links (finding : Finding) (trainImage evalImage : String) : Prop :=
  ∃ trainImages evalImages, finding.metric? "train_images" = some (.ofTexts trainImages) ∧
    finding.metric? "eval_images" = some (.ofTexts evalImages) ∧
      trainImage ∈ trainImages ∧ evalImage ∈ evalImages

theorem ofTexts_injective {texts others : List String} (h : Json.ofTexts texts = .ofTexts others) :
    texts = others := by
  apply (List.map_inj_right (f := Json.string) _).mp (Json.array.inj h)
  intro a b hEq
  exact Json.string.inj hEq

section Links

variable {group : List IndexEntry} {target : Split} {id : FindingId} {finding : Finding}

theorem Reports.links (h : Reports group target id finding) {a b : IndexEntry} (ha : a ∈ group)
    (hb : b ∈ group) (hTrain : a.split = .train) (hThere : b.split = target) :
    Links finding a.image b.image :=
  ⟨_, _, h.trainImages, h.evalImages, mem_imagesOf.mpr ⟨a, ha, hTrain, rfl⟩,
    mem_imagesOf.mpr ⟨b, hb, hThere, rfl⟩⟩

/-- The images that a finding lists are those of the entries it is about. -/
theorem Reports.exists_of_links (h : Reports group target id finding)
    {trainImage evalImage : String} (hLinks : Links finding trainImage evalImage) :
    (∃ a ∈ group, a.split = .train ∧ a.image = trainImage) ∧
      ∃ b ∈ group, b.split = target ∧ b.image = evalImage := by
  obtain ⟨trainImages, evalImages, hTrain, hEval, hMemTrain, hMemEval⟩ := hLinks
  rw [h.trainImages] at hTrain
  rw [h.evalImages] at hEval
  rw [← ofTexts_injective (Option.some.inj hTrain)] at hMemTrain
  rw [← ofTexts_injective (Option.some.inj hEval)] at hMemEval
  exact ⟨mem_imagesOf.mp hMemTrain, mem_imagesOf.mp hMemEval⟩

end Links

section Findings

variable {index : Index} {threshold : Nat} {target : Split} {a b : IndexEntry}

/-- A finding is about a near cluster that hangs together. The cluster describes a connected
component of alike entries, the finding lists the entries of that component, a chain of alike entries
joins any two of them that it lists, and two entries of the component have different bytes. -/
structure Joins (index : Index) (threshold : Nat) (target : Split) (cluster : Cluster)
    (group : List IndexEntry) (finding : Finding) : Prop where
  component : Near.IsComponent index threshold group
  describes : Near.Describes cluster group
  reports : Reports group target finding.id finding
  chained : ∀ trainImage evalImage, Links finding trainImage evalImage →
    ∃ a ∈ group, ∃ b ∈ group, a.key = ⟨.train, trainImage⟩ ∧ b.key = ⟨target, evalImage⟩ ∧
      Near.Chained index threshold a b
  contents : ∃ a ∈ group, ∃ b ∈ group, ∃ hashA hashB, a.contentHash = some hashA ∧
    b.contentHash = some hashB ∧ hashA ≠ hashB

/-- A finding of one of the near clusters hangs together. -/
def HangsTogether (index : Index) (threshold : Nat) (target : Split) (finding : Finding) : Prop :=
  ∃ cluster ∈ nearClusters index threshold, finding ∈ clusterFindings cluster ∧
    ∃ group, Joins index threshold target cluster group finding

/-- Identical images on both sides are linked by the cluster of their copies. -/
theorem exists_links_exact (hKeys : (index.entries.map IndexEntry.key).Nodup)
    (hTarget : target ∈ Split.evaluation) {hash : String} (ha : a ∈ copies index hash)
    (hb : b ∈ copies index hash) (hTrain : a.split = .train) (hThere : b.split = target) :
    ∃ f ∈ exactFindings index, (target, f.id) ∈ pairIds .exact ∧ Links f a.image b.image := by
  have hReaches : Reaches (copies index hash) target := ⟨⟨a, ha, hTrain⟩, ⟨b, hb, hThere⟩⟩
  obtain ⟨f, hFinding, hReports⟩ :=
    mem_clusterFindings_of_reaches (gathers_copies hash hKeys) hTarget hReaches
  have hCluster : copiesCluster index hash ∈ exactClusters index :=
    mem_exactClusters.mpr ⟨hash, two_le_length_of_reaches hTarget hReaches, rfl⟩
  exact ⟨f, List.mem_flatMap.mpr ⟨_, hCluster, hFinding⟩,
    mem_pairIds.mpr ⟨hTarget, hReports.named.symm⟩, hReports.links ha hb hTrain hThere⟩

/-- Alike images with different bytes are linked by the cluster of their component. -/
theorem exists_links_near (hKeys : (index.entries.map IndexEntry.key).Nodup)
    (hTarget : target ∈ Split.evaluation) (ha : a ∈ index.entries) (hb : b ∈ index.entries)
    (hTrain : a.split = .train) (hThere : b.split = target) (hAlike : Near.Alike threshold a b)
    (hNe : a.contentHash ≠ b.contentHash) :
    ∃ f ∈ (nearClusters index threshold).flatMap clusterFindings,
      (target, f.id) ∈ pairIds .near ∧ Links f a.image b.image := by
  have hComponent := Near.isComponent_component threshold ha hAlike.isSome
  have haMem := Near.mem_component_self threshold ha
  have hbMem := Near.mem_component_of_alike ha hb hAlike
  obtain ⟨cluster, hCluster, hDescribes⟩ :=
    Near.exists_cluster_of_component hKeys hComponent haMem hbMem hNe
  obtain ⟨f, hFinding, hReports⟩ := mem_clusterFindings_of_reaches
    (hComponent.gathers hKeys hDescribes) hTarget ⟨⟨a, haMem, hTrain⟩, ⟨b, hbMem, hThere⟩⟩
  rw [hDescribes.kind] at hReports
  exact ⟨f, List.mem_flatMap.mpr ⟨cluster, hCluster, hFinding⟩,
    mem_pairIds.mpr ⟨hTarget, hReports.named.symm⟩, hReports.links haMem hbMem hTrain hThere⟩

theorem hangsTogether_of_mem (hKeys : (index.entries.map IndexEntry.key).Nodup)
    (hHashed : ∀ entry ∈ index.entries, entry.perceptualHash.isSome → entry.contentHash.isSome)
    {f : Finding} (hFinding : f ∈ (nearClusters index threshold).flatMap clusterFindings)
    (hId : (target, f.id) ∈ pairIds .near) : HangsTogether index threshold target f := by
  obtain ⟨cluster, hCluster, hFinding⟩ := List.mem_flatMap.mp hFinding
  obtain ⟨group, hComponent, hDescribes, a, ha, b, hb, hNe⟩ :=
    Near.exists_component_of_mem hKeys hCluster
  obtain ⟨other, hOther, hSome⟩ := exists_of_mem_clusterFindings hFinding
  rw [hDescribes.kind] at hOther
  obtain rfl := (pairIds_unique hOther hId).2
  have hReports := reports_of_finding? (hComponent.gathers hKeys hDescribes)
    (mem_pairIds.mp hId).1 hSome
  rw [← finding?_id hSome] at hReports
  have hContent (entry : IndexEntry) (hEntry : entry ∈ group) : entry.contentHash.isSome :=
    hHashed entry (hComponent.subset entry hEntry) (hComponent.isSome hEntry)
  obtain ⟨x, hHashA⟩ := Option.isSome_iff_exists.mp (hContent a ha)
  obtain ⟨y, hHashB⟩ := Option.isSome_iff_exists.mp (hContent b hb)
  refine ⟨cluster, hCluster, hFinding, group, hComponent, hDescribes, hReports, ?_,
    a, ha, b, hb, x, y, hHashA, hHashB, ?_⟩
  · intro trainImage evalImage hLinks
    obtain ⟨⟨c, hc, hTrain, hTrainImage⟩, ⟨d, hd, hThere, hEvalImage⟩⟩ :=
      hReports.exists_of_links hLinks
    refine ⟨c, hc, d, hd, ?_, ?_, hComponent.chained hc hd⟩
    · rw [← hTrain, ← hTrainImage]
      rfl
    · rw [← hThere, ← hEvalImage]
      rfl
  · rintro rfl
    exact hNe (hHashA.trans hHashB.symm)

end Findings

/-- What the findings of a run say about alike images: every alike pair of a training and an
evaluation image is listed together, and a finding about similar images is that of a near cluster that
hangs together. -/
structure NearLeakage (index : Index) (threshold : Nat) (findings : List Finding) : Prop where
  complete : ∀ target ∈ Split.evaluation, ∀ a ∈ index.entries, ∀ b ∈ index.entries,
    a.split = .train → b.split = target → Near.Alike threshold a b →
      ∃ f ∈ findings, ((target, f.id) ∈ pairIds .exact ∨ (target, f.id) ∈ pairIds .near) ∧
        Links f a.image b.image
  sound : ∀ f ∈ findings, ∀ target, (target, f.id) ∈ pairIds .near →
    HangsTogether index threshold target f

/-- Leakage into an evaluation split is reported for every alike pair of images, the same bytes or
not, and what is reported as similar is connected by alike images and has different bytes. -/
theorem near_leakage_complete (index : Index) (config : Config)
    (hKeys : (index.entries.map IndexEntry.key).Nodup)
    (hHashing : index.perceptualHashing = true)
    (hHashed : ∀ entry ∈ index.entries, entry.perceptualHash.isSome → entry.contentHash.isSome)
    (hEnabled : config.checks.leakage.enabled = true)
    (hNear : config.checks.leakage.includeNearDup = true) :
    NearLeakage index config.checks.nearDuplicates.phashHammingThreshold.toNat
      (findingsOf .leakage (runChecks index config)) := by
  rw [findingsOf_leakage hEnabled, nearFindings, if_pos (by simp [hNear, hHashing])]
  generalize config.checks.nearDuplicates.phashHammingThreshold.toNat = threshold
  refine ⟨?_, ?_⟩
  · intro target hTarget a ha b hb hTrain hThere hAlike
    by_cases hSame : a.contentHash = b.contentHash
    · obtain ⟨hash, hHash⟩ := Option.isSome_iff_exists.mp (hHashed a ha hAlike.isSome)
      obtain ⟨f, hFinding, hId, hLinks⟩ := exists_links_exact hKeys hTarget
        (mem_copies.mpr ⟨ha, hHash⟩) (mem_copies.mpr ⟨hb, hSame ▸ hHash⟩) hTrain hThere
      exact ⟨f, List.mem_append_left _ hFinding, .inl hId, hLinks⟩
    · obtain ⟨f, hFinding, hId, hLinks⟩ :=
        exists_links_near hKeys hTarget ha hb hTrain hThere hAlike hSame
      exact ⟨f, List.mem_append_right _ hFinding, .inr hId, hLinks⟩
  · intro f hFinding target hId
    rcases List.mem_append.mp hFinding with hExact | hFinding
    · obtain ⟨⟨other, hExactId⟩, _⟩ := exact_of_mem_exactFindings hExact
      cases (pairIds_unique hExactId hId).1
    · exact hangsTogether_of_mem hKeys hHashed hFinding hId

/-- A training image with the same bytes as one for testing, and alike to one for validation. -/
def blended : Index := .ofEntries
  [.ofHashes .train "a.png" (some "ha") (some 0x00),
   .ofHashes .val "b.png" (some "hb") (some 0x0F),
   .ofHashes .test "c.png" (some "ha") (some 0x00),
   .ofHashes .test "d.png" (some "hd") none]

theorem blended_leakage :
    NearLeakage blended 8 (findingsOf .leakage (runChecks blended
      { checks := { leakage := { includeNearDup := true } } })) :=
  near_leakage_complete blended { checks := { leakage := { includeNearDup := true } } }
    (by decide) (by decide) (by decide) rfl rfl

example : (nearClusters blended 8).map Cluster.leakagePairs =
    [[(.train, .val), (.train, .test)]] := by cbv

end DatasetAudit.Leakage
