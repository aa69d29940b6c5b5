import DatasetAudit.Proofs.Check.Integrity
import DatasetAudit.Proofs.Index.Selection
import DatasetAudit.Proofs.Report.Agreement

/-! What a report says about its dataset. The counts of a split are worked out from the entries, the
findings by the integrity check, and neither looks at the other; for an index of what a scan found
they agree, whether a limit has left entries out or not. -/

namespace DatasetAudit

section Runs

variable {index : Index} {config : Config} {kind : CheckKind} {p : Finding → Bool}

/-- Findings of one check are found among those of that check. -/
theorem countP_flatMap_runChecks (index : Index) (config : Config)
    (hKind : ∀ f, p f = true → f.id.check = kind) :
    ((runChecks index config).flatMap (·.findings)).countP p =
      (findingsOf kind (runChecks index config)).countP p := by
  have hOthers : ∀ outcome ∈ runChecks index config, decide (outcome.kind = kind) = false →
      outcome.findings.filter p = [] := by
    intro outcome hOutcome hOther
    rw [List.filter_eq_nil_iff]
    intro f hFinding hp
    rw [← hKind f hp, CheckOutcome.check_of_mem_runChecks hOutcome hFinding] at hOther
    simp at hOther
  rw [findingsOf, List.countP_eq_length_filter, List.countP_eq_length_filter, List.filter_flatMap,
    List.filter_flatMap, flatMap_filter_eq hOthers]

theorem findingsOf_integrity (hEnabled : config.isEnabled .integrity = true) :
    findingsOf .integrity (runChecks index config) = Integrity.findings index := by
  rw [findingsOf_runChecks]
  exact CheckOutcome.findings_ofCheck hEnabled rfl

end Runs

namespace Integrity

variable {index : Index}

theorem countP_id_split (found : List Finding) (id : FindingId) (split : Split) :
    found.countP (fun f => f.id = id ∧ f.split = some split) =
      (found.filter fun f => f.id = id).countP fun f => f.split = some split := by
  rw [List.countP_filter]
  apply List.countP_congr
  intro f _
  simp [and_comm]

/-- As many images of a split are flagged as have no label file. -/
theorem countP_missingLabel (index : Index) (split : Split) :
    (findings index).countP (fun f => f.id = .integrityMissingLabel ∧ f.split = some split) =
      (index.entriesIn split).countP fun entry => entry.labels.isMissing := by
  rw [countP_id_split, filter_missingLabel, List.countP_map, List.countP_filter,
    Index.entriesIn, List.countP_filter]
  apply List.countP_congr
  intro entry _
  simp [missingLabel, Finding.about, and_comm]

/-- As many label files of a split are flagged as are orphans. -/
theorem countP_orphanLabel (hSplits : (index.splits.map SplitInfo.split).Nodup) {info : SplitInfo}
    (hInfo : info ∈ index.splits) :
    (findings index).countP (fun f => f.id = .integrityOrphanLabel ∧ f.split = some info.split) =
      info.orphanLabels.length := by
  have hOwn : (index.splits.flatMap fun other =>
      other.orphanLabels.map (orphanLabel other.split)).filter
        (fun f => f.split = some info.split) =
        (index.splits.filter fun other => other.split = info.split).flatMap
          fun other => other.orphanLabels.map (orphanLabel other.split) := by
    apply filter_flatMap_eq
    intro other _ f hFinding
    obtain ⟨label, -, rfl⟩ := List.mem_map.mp hFinding
    simp [orphanLabel]
  rw [countP_id_split, filter_orphanLabel, List.countP_eq_length_filter, hOwn,
    filter_key_eq_singleton hSplits hInfo, List.flatMap_singleton, List.length_map]

theorem exists_split_of_mem_findings {splits : List Split}
    (hEntries : ∀ entry ∈ index.entries, entry.split ∈ splits)
    (hSplits : ∀ info ∈ index.splits, info.split ∈ splits) :
    ∀ f ∈ findings index, ∃ split ∈ splits, f.split = some split := by
  intro f hFinding
  rcases List.mem_append.mp hFinding with hFinding | hFinding
  · obtain ⟨entry, hEntry, hFinding⟩ := List.mem_flatMap.mp hFinding
    exact ⟨_, hEntries entry hEntry, (fromEntry_of_mem_entryFindings hFinding).split⟩
  · obtain ⟨info, hInfo, hFinding⟩ := List.mem_flatMap.mp hFinding
    obtain ⟨label, -, rfl⟩ := List.mem_map.mp hFinding
    exact ⟨_, hSplits info hInfo, rfl⟩

end Integrity

namespace Report

variable {index : Index} {settings : Config} {run : RunInfo} {info : SplitInfo}

/-- What a report says about the splits of an index agrees with its entries and its findings. -/
structure DescribesDataset (index : Index) (outcomes : List CheckOutcome) (report : Report) :
    Prop where
  counted : ∀ info ∈ index.splits, ∃ counts,
    report.summary.dataset.splits info.split = some counts ∧
      counts.images = (index.entriesIn info.split).length ∧
      counts.images = counts.labeled + counts.unlabeled ∧
      counts.unlabeled = report.flags.findings.countP fun f =>
        f.id = .integrityMissingLabel ∧ f.split = some info.split
  orphans : ∀ info ∈ index.splits,
    (report.flags.findings.countP fun f =>
      f.id = .integrityOrphanLabel ∧ f.split = some info.split) = info.orphanLabels.length
  listed : ∀ f ∈ findingsOf .integrity outcomes,
    ∃ info ∈ index.splits, f.split = some info.split
  unlisted : ∀ split, (∀ info ∈ index.splits, info.split ≠ split) →
    report.summary.dataset.splits split = none

theorem countP_flags (hEnabled : settings.isEnabled .integrity = true) {p : Finding → Bool}
    (hKind : ∀ f, p f = true → f.id.check = .integrity) :
    (ofOutcomes index settings (runChecks index settings) run).flags.findings.countP p =
      (Integrity.findings index).countP p := by
  have hPerm : (ofOutcomes index settings (runChecks index settings) run).flags.findings.Perm
      ((runChecks index settings).flatMap (·.findings)) := List.mergeSort_perm _ _
  rw [hPerm.countP_eq, countP_flatMap_runChecks index settings hKind,
    findingsOf_integrity hEnabled]

/-- The counts of a split add up, as no more of its images can have label files than there are. -/
theorem splitCounts_eq (hCount : info.imageCount = (index.entriesIn info.split).length) :
    (splitCounts index info).images =
        (splitCounts index info).labeled + (splitCounts index info).unlabeled ∧
      (splitCounts index info).unlabeled =
        (index.entriesIn info.split).countP fun entry => entry.labels.isMissing := by
  have hParts := List.length_eq_countP_add_countP (l := index.entriesIn info.split)
    fun entry => !entry.labels.isMissing
  simp only [Bool.not_eq_true', Bool.not_eq_false, Bool.decide_eq_true] at hParts
  simp only [splitCounts, hCount]
  omega

/-- An index whose splits are listed once, with the numbers of their entries, and with a split for
every entry, is described as it is. -/
theorem describesDataset_ofOutcomes (hEnabled : settings.isEnabled .integrity = true)
    (hSplits : (index.splits.map SplitInfo.split).Nodup)
    (hCounts : ∀ info ∈ index.splits, info.imageCount = (index.entriesIn info.split).length)
    (hEntries : ∀ entry ∈ index.entries, entry.split ∈ index.splits.map SplitInfo.split)
    (run : RunInfo) :
    (ofOutcomes index settings (runChecks index settings) run).DescribesDataset index
      (runChecks index settings) where
  counted := by
    intro info hInfo
    obtain ⟨hSum, hUnlabeled⟩ := splitCounts_eq (hCounts info hInfo)
    refine ⟨splitCounts index info, ?_, hCounts info hInfo, hSum, ?_⟩
    · simp only [ofOutcomes, datasetInfo, findLast?_eq_getLast?,
        filter_key_eq_singleton hSplits hInfo]
      rfl
    · rw [countP_flags hEnabled, Integrity.countP_missingLabel, hUnlabeled]
      intro f hp
      rw [(of_decide_eq_true hp).1]
      rfl
  orphans := by
    intro info hInfo
    rw [countP_flags hEnabled, Integrity.countP_orphanLabel hSplits hInfo]
    intro f hp
    rw [(of_decide_eq_true hp).1]
    rfl
  listed := by
    intro f hFinding
    rw [findingsOf_integrity hEnabled] at hFinding
    obtain ⟨split, hSplit, hEq⟩ := Integrity.exists_split_of_mem_findings hEntries
      (fun _ => List.mem_map_of_mem) f hFinding
    obtain ⟨info, hInfo, rfl⟩ := List.mem_map.mp hSplit
    exact ⟨info, hInfo, hEq⟩
  unlisted := by
    intro split hNone
    have hFilter : (index.splits.filter fun info => info.split = split) = [] := by
      simpa using hNone
    simp only [ofOutcomes, datasetInfo, findLast?_eq_getLast?, hFilter]
    rfl

/-- A report describes the dataset that was scanned, whatever the limit of the index was and
whatever else was checked. -/
theorem dataset_described (dataYaml text : String) (requested : List Split) (layout : Layout)
    (tree : FileTree) (source : Source) (files : FileView) (config : Config)
    (options : IndexOptions) (decoder : Decoder) (cache : IndexCache) (index : Index)
    (settings : Config) (run : RunInfo)
    (hLayout : Layout.parse dataYaml text requested = .ok layout)
    (hScan : scan tree layout = .ok source)
    (hBuild : Index.build files source config options decoder cache = .ok index)
    (hEnabled : settings.isEnabled .integrity = true) :
    (ofOutcomes index settings (runChecks index settings) run).DescribesDataset index
      (runChecks index settings) := by
  have hSource : (source.splits.map SplitSource.split).Nodup := by
    obtain ⟨-, hSplits, -⟩ := Scan.scan_eq_ok_iff.mp hScan
    have hSame : source.splits.map SplitSource.split = layout.splits.map SplitLayout.split := by
      refine Scan.map_key_of_mapM (fun part found hFound => ?_) hSplits
      obtain ⟨_, _, -, hSplit, -⟩ := Scan.exists_of_split hFound
      exact hSplit
    rw [hSame]
    exact Layout.splits_nodup_of_parse hLayout
  have hMem (split : Split) : split ∈ index.splits.map SplitInfo.split ↔
      split ∈ source.splits.map SplitSource.split := by
    rw [Index.splits_of_build hBuild, ((sortByKey_perm _ _).map _).mem_iff, List.map_map]
    rfl
  apply describesDataset_ofOutcomes hEnabled
  · exact (Index.splits_ascending hSource hBuild).nodup
  · intro info hInfo
    rw [Index.splits_of_build hBuild, mem_sortByKey] at hInfo
    obtain ⟨found, -, rfl⟩ := List.mem_map.mp hInfo
    exact List.countP_eq_length_filter
  · intro entry hEntry
    rw [hMem]
    exact Index.split_mem_of_build (Scan.listed_of_scan hScan) hBuild hEntry

/-- Two images for training, one of them without labels, and for validation an image and a label
file that do not belong together. -/
def unlabelled : FileTree where
  nodes := Index.parted.nodes.insertMany
    [((["d", "t", "images", "z.png"] : Location), FileNode.file [3] 1),
      (["d", "t", "labels"], .directory), (["d", "t", "labels", "x.txt"], .file [] 1),
      (["d", "v", "labels"], .directory), (["d", "v", "labels", "w.txt"], .file [] 1)]

/-- A limit that leaves out the image for validation leaves the split in the report, without images
and with its orphan. -/
theorem unlabelled_described :
    Layout.parse "/d/data.yaml" "names: [a]\nval: v/images\ntrain: t/images\n" [] =
        .ok Index.partedLayout ∧
      ∃ source index, scan unlabelled Index.partedLayout = .ok source ∧
        Index.build unlabelled.view source {} { maxImages := 2 } .header .empty = .ok index ∧
        index.entries.map IndexEntry.key =
          [⟨.train, "t/images/x.png"⟩, ⟨.train, "t/images/z.png"⟩] ∧
        ∀ run, let report := ofOutcomes index {} (runChecks index {}) run
          report.DescribesDataset index (runChecks index {}) ∧
            (∃ counts, report.summary.dataset.splits .val = some counts ∧ counts.images = 0) ∧
              (report.flags.findings.countP fun f =>
                f.id = .integrityOrphanLabel ∧ f.split = some .val) = 1 := by
  have hLayout : Layout.parse "/d/data.yaml" "names: [a]\nval: v/images\ntrain: t/images\n" [] =
      .ok Index.partedLayout := Except.eq_ok_of_toOption (by decide +kernel)
  obtain ⟨source, hScan, hFound⟩ : ∃ source, scan unlabelled Index.partedLayout = .ok source ∧
      (source.records.map SourceRecord.key,
        source.splits.map fun found => (found.split, found.orphanLabels)) =
        ([⟨.train, "t/images/x.png"⟩, ⟨.train, "t/images/z.png"⟩, ⟨.val, "v/images/y.png"⟩],
          [(.train, []), (.val, ["v/labels/w.txt"])]) :=
    Except.exists_of_toOption_map (by decide +kernel)
  obtain ⟨hRecords, hParts⟩ := Prod.mk.inj hFound
  obtain ⟨⟨_, hRoot, -⟩, -, hSource⟩ := Scan.scan_eq_ok_iff.mp hScan
  have hSame : source.root = Index.partedLayout.root := hSource ▸ rfl
  obtain ⟨index, hIndex⟩ : ∃ index,
      Index.build unlabelled.view source {} { maxImages := 2 } .header .empty = .ok index :=
    Index.exists_build_of_find (hSame ▸ hRoot) rfl
  have hKeys : index.entries.map IndexEntry.key =
      [⟨.train, "t/images/x.png"⟩, ⟨.train, "t/images/z.png"⟩] := by
    obtain ⟨-, keys, hAscending, hMem, hEntries⟩ := Index.inOrder_of_build hIndex
    have hAll : keys = [⟨.train, "t/images/x.png"⟩, ⟨.train, "t/images/z.png"⟩,
        ⟨.val, "v/images/y.png"⟩] := by
      apply hAscending.eq_of_mem_iff (by decide)
      intro key
      rw [hMem, ← hRecords, List.mem_map]
    rw [hEntries, if_neg (by decide), hAll]
    rfl
  obtain ⟨found, hMem, hVal⟩ : ∃ found ∈ source.splits,
      (found.split, found.orphanLabels) = (Split.val, ["v/labels/w.txt"]) :=
    List.mem_map.mp (hParts ▸ by decide)
  obtain ⟨hSplit, hOrphans⟩ := Prod.mk.inj hVal
  have hInfo : Index.splitInfo index.entries found ∈ index.splits := by
    rw [Index.splits_of_build hIndex, mem_sortByKey]
    exact List.mem_map_of_mem hMem
  refine ⟨hLayout, source, index, hScan, hIndex, hKeys, fun run => ?_⟩
  have hDescribes := dataset_described _ _ _ _ _ source _ _ _ _ _ index {} run hLayout hScan hIndex
    rfl
  obtain ⟨counts, hCounts, hImages, -⟩ := hDescribes.counted _ hInfo
  have hOrphan := hDescribes.orphans _ hInfo
  simp only [Index.splitInfo, hSplit, hOrphans] at hCounts hImages hOrphan
  refine ⟨hDescribes, ⟨counts, hCounts, ?_⟩, hOrphan⟩
  rw [hImages, Index.entriesIn, ← List.countP_eq_length_filter]
  change (index.entries.countP ((fun key => key.split = .val) ∘ IndexEntry.key)) = 0
  rw [← List.countP_map, hKeys]
  rfl

end Report

end DatasetAudit
