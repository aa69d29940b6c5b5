import DatasetAudit.Proofs.Artifact.Run
import DatasetAudit.Proofs.Index.Order

/-! What an index leaves to the next run. Its file answers for it if all coordinates of its labels
are finite; with a single one that is not, the file is of no use, and the next run starts cold. -/

namespace DatasetAudit

namespace Index

variable {files : FileView} {source : Source} {config : Config} {options : IndexOptions}
  {decoder : Decoder} {cache : IndexCache} {index : Index}

/-- The counts of an index fit into sixty-four bits if its entries and its limit do. -/
theorem writable_iff_of_build (h : build files source config options decoder cache = .ok index)
    (hEntries : index.entries.length < UInt64.size) (hLimit : options.maxImages < UInt64.size) :
    index.Writable ↔ ∀ entry ∈ index.entries, entry.labels.IsFinite := by
  refine ⟨Writable.entries, fun hFinite => ⟨hFinite, fun info hInfo => ?_, ?_⟩⟩
  · rw [splits_of_build h, mem_sortByKey] at hInfo
    obtain ⟨part, -, rfl⟩ := List.mem_map.mp hInfo
    exact List.countP_le_length.trans_lt hEntries
  · rw [(build_ok h).1]
    exact hLimit

end Index

namespace IndexCache

variable {index : Index} {entry : IndexEntry}

/-- Of entries with different keys each is found under its own. -/
theorem getElem?_foldl_of_mem {entries : List IndexEntry} {table : Std.TreeMap ImageKey IndexEntry}
    (hKeys : (entries.map IndexEntry.key).Nodup) (hEntry : entry ∈ entries) :
    (entries.foldl (fun table entry => table.insert entry.key entry) table)[entry.key]? =
      some entry := by
  have hKept (rest : List IndexEntry) (found : Std.TreeMap ImageKey IndexEntry)
      (hRest : entry.key ∉ rest.map IndexEntry.key) (hFound : found[entry.key]? = some entry) :
      (rest.foldl (fun table entry => table.insert entry.key entry) found)[entry.key]? =
        some entry := by
    induction rest generalizing found with
    | nil => exact hFound
    | cons other rest ih =>
        rw [List.map_cons, List.mem_cons, not_or] at hRest
        apply ih _ hRest.2
        rw [Std.TreeMap.getElem?_insert, if_neg, hFound]
        exact fun hEq => hRest.1 (Std.LawfulEqCmp.eq_of_compare hEq).symm
  induction entries generalizing table with
  | nil => cases hEntry
  | cons first rest ih =>
      rw [List.map_cons, List.nodup_cons] at hKeys
      rcases List.mem_cons.mp hEntry with rfl | hRest
      · apply hKept _ _ hKeys.1
        rw [Std.TreeMap.getElem?_insert, if_pos Std.ReflCmp.compare_self]
      · exact ih hKeys.2 hRest

/-- An entry that was made from bytes is used again under the same settings, as long as size and
time are the same. -/
theorem lookup?_ofIndex (hKeys : (index.entries.map IndexEntry.key).Nodup)
    (hEntry : entry ∈ index.entries) (hRead : entry.contentHash.isSome) :
    (ofIndex index).lookup? index.cacheBasis.digest entry.key ⟨entry.sizeBytes, entry.mtimeNs⟩ =
      some entry := by
  have hFound : (ofIndex index).entries[entry.key]? = some entry :=
    getElem?_foldl_of_mem hKeys hEntry
  have hSettings : (ofIndex index).basisDigest = some index.cacheBasis.digest := rfl
  rw [lookup?, if_pos hSettings, hFound]
  simp [Option.filter, hRead]

/-- The file of an index that was built answers every lookup as the index does, if the coordinates of
all labels are finite, and then every image that was read is used again. Otherwise it answers none. -/
theorem load_written (files : FileView) (source : Source) (config : Config)
    (options : IndexOptions) (decoder : Decoder) (cache : IndexCache) (index : Index)
    (hBuild : Index.build files source config options decoder cache = .ok index)
    (hEntries : index.entries.length < UInt64.size) (hLimit : options.maxImages < UInt64.size)
    (tree later : FileTree) (path : String) (mtimeNs : Int)
    (hWrite : tree.write path (Utf8.encode index.toJson.document) mtimeNs = (later, .ok ())) :
    ((∀ entry ∈ index.entries, entry.labels.IsFinite) →
      (∀ basisDigest key stat, (load later path).lookup? basisDigest key stat =
        (ofIndex index).lookup? basisDigest key stat) ∧
      ∀ entry ∈ index.entries, entry.contentHash.isSome →
        (load later path).lookup? index.cacheBasis.digest entry.key
          ⟨entry.sizeBytes, entry.mtimeNs⟩ = some entry) ∧
    ((∃ entry ∈ index.entries, ¬ entry.labels.IsFinite) →
      ∀ basisDigest key stat, (load later path).lookup? basisDigest key stat = none) := by
  have hLoad := load_eq (FileTree.readText_eq_ok (FileTree.read_of_write hWrite))
  rw [Index.writable_iff_of_build hBuild hEntries hLimit] at hLoad
  have hKeys := (Index.inOrder_of_build hBuild).ascending.nodup
  constructor
  · intro hFinite
    rw [hLoad.1 hFinite]
    exact ⟨fun _ _ _ => rfl, fun entry hEntry hRead => lookup?_ofIndex hKeys hEntry hRead⟩
  · rintro ⟨entry, hEntry, hNot⟩ basisDigest key stat
    rw [hLoad.2 fun hFinite => hNot (hFinite entry hEntry), lookup?_empty]

/-- A tree with one image, whose label file has this text. -/
def labelled (text : String) : FileTree where
  nodes := Std.TreeMap.ofList
    [((["d"] : Location), FileNode.directory), (["d", "images"], .directory),
      (["d", "images", "a.png"], .file [0] 1), (["d", "labels"], .directory),
      (["d", "labels", "a.txt"], .file (Utf8.encode text) 1)]

/-- Where that image and its label file are. -/
def labelledLayout : Layout where
  dataYaml := "/d/data.yaml"
  root := .ofString "/d"
  classNames := []
  splits := [⟨.train, .ofString "/d/images", .ofString "/d/labels"⟩]

/-- The index of that image. -/
def labelledIndex (text : String) : Except AuditError Index :=
  (scan (labelled text) labelledLayout).bind fun source =>
    Index.build (labelled text).view source {} {} .header .empty

/-- What holds of that index holds of one that can be written beside the images. -/
theorem exists_written_of_labelled (text : String) (holds : Index → Bool)
    (h : (labelledIndex text).toOption.any holds = true) :
    ∃ source index later, scan (labelled text) labelledLayout = .ok source ∧
      Index.build (labelled text).view source {} {} .header .empty = .ok index ∧
        (labelled text).write "/d/index.json" (Utf8.encode index.toJson.document) 1 =
            (later, .ok ()) ∧
          holds index = true := by
  obtain ⟨index, hIndex, hHolds⟩ := Except.exists_of_toOption_any h
  obtain ⟨source, hScan, hBuild⟩ := Except.exists_of_bind hIndex
  have hPlace : (labelled text).locate "/d/index.json" = .ok ["d", "index.json"] := rfl
  have hNone : (labelled text).node? ["d", "index.json"] = none := rfl
  have hFree : FileTree.Free (labelled text) ["d", "index.json"] := ⟨by simp [hNone], rfl⟩
  exact ⟨source, index, _, hScan, hBuild, FileTree.write_of_locate _ 1 hPlace hFree, hHolds⟩

theorem labelled_reloaded : ∃ index later, labelledIndex "0 0.5 0.5 0.1 0.1" = .ok index ∧
    (∀ entry ∈ index.entries, entry.labels.IsFinite) ∧
    (labelled "0 0.5 0.5 0.1 0.1").write "/d/index.json"
      (Utf8.encode index.toJson.document) 1 = (later, .ok ()) ∧
    ∃ entry ∈ index.entries, (load later "/d/index.json").lookup? index.cacheBasis.digest entry.key
      ⟨entry.sizeBytes, entry.mtimeNs⟩ = some entry := by
  obtain ⟨source, index, later, hScan, hBuild, hWrite, hHolds⟩ :=
    exists_written_of_labelled "0 0.5 0.5 0.1 0.1"
      (fun index => decide ((∀ entry ∈ index.entries, entry.labels.IsFinite) ∧
        index.entries.length < UInt64.size ∧ ∃ entry ∈ index.entries, entry.contentHash.isSome))
      (by decide +kernel)
  obtain ⟨hFinite, hEntries, entry, hEntry, hRead⟩ := of_decide_eq_true hHolds
  have hAnswers := load_written _ source {} {} .header .empty index hBuild hEntries (by decide)
    _ later "/d/index.json" 1 hWrite
  refine ⟨index, later, ?_, hFinite, hWrite, entry, hEntry, ?_⟩
  · rw [labelledIndex, hScan]
    exact hBuild
  · exact (hAnswers.1 hFinite).2 entry hEntry hRead

/-- A label with an infinite coordinate makes the next run forget what the index knows. -/
theorem infinite_forgotten : ∃ source index later entry,
    scan (labelled "0 inf 0.5 0.1 0.1") labelledLayout = .ok source ∧
    Index.build (labelled "0 inf 0.5 0.1 0.1").view source {} {} .header .empty = .ok index ∧
    (labelled "0 inf 0.5 0.1 0.1").write "/d/index.json"
      (Utf8.encode index.toJson.document) 1 = (later, .ok ()) ∧
    (ofIndex index).lookup? index.cacheBasis.digest entry.key ⟨entry.sizeBytes, entry.mtimeNs⟩ =
      some entry ∧
    (load later "/d/index.json").lookup? index.cacheBasis.digest entry.key
      ⟨entry.sizeBytes, entry.mtimeNs⟩ = none := by
  obtain ⟨source, index, later, hScan, hBuild, hWrite, hHolds⟩ :=
    exists_written_of_labelled "0 inf 0.5 0.1 0.1"
      (fun index => decide (∃ entry ∈ index.entries,
        ¬ entry.labels.IsFinite ∧ entry.contentHash.isSome))
      (by decide +kernel)
  obtain ⟨entry, hEntry, hNot, hRead⟩ := of_decide_eq_true hHolds
  have hLoad := load_eq (FileTree.readText_eq_ok (FileTree.read_of_write hWrite))
  refine ⟨source, index, later, entry, hScan, hBuild, hWrite,
    lookup?_ofIndex (Index.inOrder_of_build hBuild).ascending.nodup hEntry hRead, ?_⟩
  rw [hLoad.2 fun hWritable => hNot (hWritable.entries entry hEntry), lookup?_empty]

end IndexCache

end DatasetAudit
