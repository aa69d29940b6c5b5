import DatasetAudit.Proofs.Index.Order
import DatasetAudit.Proofs.Scan.Selection
import DatasetAudit.Proofs.Sorting

/-! The index of some of the splits. Records are sorted by their splits first, and what is worked out
for one does not depend on the others, so the index of what was asked for is a part of the index of
everything. -/

namespace DatasetAudit

namespace Index

variable {files : FileView} {source : Source} {config : Config} {decoder : Decoder}
  {cache : IndexCache} {options : IndexOptions} {index : Index} {requested : List Split}

/-- Some of the splits of an index, with their entries and the digest of these. -/
def select (index : Index) (requested : List Split) : Index :=
  let entries := index.entries.filter fun entry => entry.split ∈ requested
  { index with
    splits := index.splits.filter fun info => info.split ∈ requested
    entries, cacheKey := DatasetAudit.cacheKey index.cacheBasis entries }

/-- Records are chosen by their keys, so all records of some keys may be left out before. -/
theorem chosenRecords_filter (hAll : options.maxImages = 0) (p : ImageKey → Bool)
    (records : List SourceRecord) :
    chosenRecords options (records.filter fun record => p record.key) =
      (chosenRecords options records).filter fun record => p record.key := by
  rw [chosenRecords, if_pos hAll, chosenRecords, if_pos hAll, sortByKey_filter]
  exact firstOfRuns_filter (sortByKey_pairwise SourceRecord.key records)

/-- The entries of a split are counted among those of some splits with it. -/
theorem splitInfo_filter {entries : List IndexEntry} {found : SplitSource}
    (h : found.split ∈ requested) :
    splitInfo (entries.filter fun entry => entry.split ∈ requested) found =
      splitInfo entries found := by
  rw [splitInfo, List.countP_filter]
  have hCount : (entries.countP fun entry =>
      decide (entry.split = found.split) && decide (entry.split ∈ requested)) =
        entries.countP fun entry => entry.split = found.split := by
    apply List.countP_congr
    intro entry _
    by_cases hSplit : entry.split = found.split
    · simp [hSplit, h]
    · simp [hSplit]
  rw [hCount]
  rfl

/-- The entries of the chosen records of some splits are the entries of these splits. -/
theorem entries_select {perceptualHashing : Bool} {basisDigest : String}
    (hAll : options.maxImages = 0)
    (hListed : ∀ found ∈ source.splits, ∀ record ∈ found.records, record.split = found.split) :
    (chosenRecords options (source.select requested).records).map
        (entryOf files decoder perceptualHashing cache basisDigest) =
      ((chosenRecords options source.records).map
        (entryOf files decoder perceptualHashing cache basisDigest)).filter
          fun entry => entry.split ∈ requested := by
  have hSplit (record : SourceRecord) :
      (entryOf files decoder perceptualHashing cache basisDigest record).split = record.split :=
    congrArg ImageKey.split entryOf_key
  have hChosen :
      chosenRecords options (source.records.filter fun record => record.split ∈ requested) =
        (chosenRecords options source.records).filter fun record => record.split ∈ requested :=
    chosenRecords_filter hAll (fun key => key.split ∈ requested) source.records
  rw [Source.records_select hListed, hChosen, List.filter_map]
  congr 1
  apply List.filter_congr
  intro record _
  rw [Function.comp_apply, hSplit]

theorem splits_select (entries : List IndexEntry) :
    sortByKey SplitInfo.split ((source.select requested).splits.map
        (splitInfo (entries.filter fun entry => entry.split ∈ requested))) =
      (sortByKey SplitInfo.split (source.splits.map (splitInfo entries))).filter
        fun info => info.split ∈ requested := by
  rw [← sortByKey_filter, List.filter_map]
  congr 1
  apply List.map_congr_left
  intro found hFound
  exact splitInfo_filter (of_decide_eq_true (List.mem_filter.mp hFound).2)

theorem ofSource_select (hAll : options.maxImages = 0)
    (hListed : ∀ found ∈ source.splits, ∀ record ∈ found.records, record.split = found.split) :
    ofSource files (source.select requested) config options decoder cache =
      (ofSource files source config options decoder cache).select requested := by
  have hBasis : basisOf (source.select requested) config options decoder =
      basisOf source config options decoder := rfl
  simp only [ofSource, hBasis, entries_select hAll hListed, splits_select]
  rfl

/-- Splits may be selected before or after the index is built. -/
theorem build_select (hAll : options.maxImages = 0)
    (hListed : ∀ found ∈ source.splits, ∀ record ∈ found.records, record.split = found.split)
    (h : build files source config options decoder cache = .ok index) :
    build files (source.select requested) config options decoder cache =
      .ok (index.select requested) := by
  obtain ⟨hRoot, hWorkers, rfl⟩ := build_eq_ok_iff.mp h
  exact build_eq_ok_iff.mpr ⟨hRoot, hWorkers, (ofSource_select hAll hListed).symm⟩

/-- Asking for some splits commutes with indexing a dataset: it selects from the index of all splits
what stands under these. Of the splits that are asked for one has to be declared. -/
theorem requested_eq_selected (tree : FileTree) (path : String) (config : Config)
    (options : IndexOptions) (decoder : Decoder) (cache : IndexCache) (requested : List Split)
    (hRequested : requested ≠ []) :
    (∀ layout source index, Layout.load tree path [] = .ok layout → scan tree layout = .ok source →
      build tree.view source config { options with maxImages := 0 } decoder cache = .ok index →
        (∃ split ∈ requested, Layout.Declares tree path split) →
          ∃ layout' source', Layout.load tree path requested = .ok layout' ∧
            scan tree layout' = .ok source' ∧
              build tree.view source' config { options with maxImages := 0 } decoder cache =
                .ok (index.select requested)) ∧
      ((∀ split ∈ requested, ¬ Layout.Declares tree path split) →
        ∃ fault, Layout.load tree path requested = .error (.usage fault) ∧
          ∀ layout, Layout.load tree path [] = .ok layout → fault = .layout .noSplits) := by
  constructor
  · intro layout source index hLayout hSource hIndex hDeclared
    exact ⟨layout.select requested, source.select requested,
      Layout.load_of_declared hDeclared hLayout, Scan.scan_select hSource requested,
      build_select rfl (Scan.listed_of_scan hSource) hIndex⟩
  · intro hDeclared
    obtain ⟨fault, hFault⟩ := Layout.exists_usage_of_not_declared hRequested hDeclared
    refine ⟨fault, hFault, fun layout hLayout => ?_⟩
    have hNone := Layout.load_of_not_declared hRequested hDeclared hLayout
    exact AuditError.usage.inj (Except.error.inj (hFault.symm.trans hNone))

/-- A dataset with one image for training and one for validation. -/
def parted : FileTree where
  nodes := Std.TreeMap.ofList
    [((["d"] : Location), FileNode.directory),
      (["d", "data.yaml"], .file (Utf8.encode "names: [a]\nval: v/images\ntrain: t/images\n") 1),
      (["d", "t"], .directory), (["d", "t", "images"], .directory),
      (["d", "t", "images", "x.png"], .file [1] 1),
      (["d", "v"], .directory), (["d", "v", "images"], .directory),
      (["d", "v", "images", "y.png"], .file [2] 1)]

/-- Its layout. -/
def partedLayout : Layout where
  dataYaml := "/d/data.yaml"
  root := .ofString "/d"
  classNames := ["a"]
  splits := [⟨.train, .ofString "/d/t/images", .ofString "/d/t/labels"⟩,
    ⟨.val, .ofString "/d/v/images", .ofString "/d/v/labels"⟩]

theorem load_parted : Layout.load parted "/d/data.yaml" [] = .ok partedLayout :=
  Except.eq_ok_of_toOption (by decide +kernel)

/-- Asked for validation, testing and again validation it has the entry for validation. Asked for
testing it has no layout. -/
theorem parted_requested : ∃ source index, scan parted partedLayout = .ok source ∧
    build parted.view source {} { maxImages := 0 } .header .empty = .ok index ∧
      index.entries.map IndexEntry.key =
        [⟨.train, "t/images/x.png"⟩, ⟨.val, "v/images/y.png"⟩] ∧
        (∃ layout source', Layout.load parted "/d/data.yaml" [.val, .test, .val] = .ok layout ∧
          scan parted layout = .ok source' ∧
            build parted.view source' {} { maxImages := 0 } .header .empty =
              .ok (index.select [.val, .test, .val])) ∧
          (index.select [.val, .test, .val]).entries.map IndexEntry.key =
            [⟨.val, "v/images/y.png"⟩] ∧
            Layout.load parted "/d/data.yaml" [.test] = .error (.usage (.layout .noSplits)) := by
  have hDeclares (split : Split) : Layout.Declares parted "/d/data.yaml" split ↔
      ∃ part ∈ partedLayout.splits, part.split = split := by
    rw [Layout.exists_part_iff load_parted, Layout.mem_wantedSplits_iff]
    simp
  have hVal : Layout.Declares parted "/d/data.yaml" .val := (hDeclares _).mpr (by decide)
  have hTest : ¬ Layout.Declares parted "/d/data.yaml" .test := by
    rw [hDeclares]
    decide
  obtain ⟨source, hScan, hRecords⟩ : ∃ source, scan parted partedLayout = .ok source ∧
      source.records.map SourceRecord.key =
        [⟨.train, "t/images/x.png"⟩, ⟨.val, "v/images/y.png"⟩] :=
    Except.exists_of_toOption_map (by decide +kernel)
  obtain ⟨⟨_, hRoot, -⟩, -, hSource⟩ := Scan.scan_eq_ok_iff.mp hScan
  have hSame : source.root = partedLayout.root := hSource ▸ rfl
  obtain ⟨index, hIndex⟩ : ∃ index,
      build parted.view source {} { maxImages := 0 } .header .empty = .ok index :=
    exists_build_of_find (hSame ▸ hRoot) rfl
  have hKeys : index.entries.map IndexEntry.key =
      [⟨.train, "t/images/x.png"⟩, ⟨.val, "v/images/y.png"⟩] := by
    obtain ⟨-, keys, hAscending, hMem, hEntries⟩ := inOrder_of_build hIndex
    rw [hEntries, if_pos rfl]
    apply hAscending.eq_of_mem_iff (by decide)
    intro key
    rw [hMem, ← hRecords, List.mem_map]
  have hSome : (index.select [.val, .test, .val]).entries.map IndexEntry.key =
      [⟨.val, "v/images/y.png"⟩] := by
    change (index.entries.filter ((fun key => key.split ∈ [.val, .test, .val]) ∘
      IndexEntry.key)).map IndexEntry.key = _
    rw [← List.filter_map, hKeys]
    decide
  have hSelected := (requested_eq_selected parted "/d/data.yaml" {} {} .header .empty
    [.val, .test, .val] (by decide)).1 _ source index load_parted hScan hIndex
      ⟨.val, by decide, hVal⟩
  obtain ⟨fault, hFault, hNone⟩ := (requested_eq_selected parted "/d/data.yaml" {} {} .header .empty
    [.test] (by decide)).2 (by simpa using hTest)
  rw [hNone _ load_parted] at hFault
  exact ⟨source, index, hScan, hIndex, hKeys, hSelected, hSome, hFault⟩

end Index

end DatasetAudit
