import DatasetAudit.Proofs.Check.Apart
import DatasetAudit.Proofs.Index.Order
import DatasetAudit.Proofs.Labels.Lines
import DatasetAudit.Proofs.Scan.Files
import DatasetAudit.Proofs.Scan.Layout

/-! The names in a dataset that was scanned. A label file numbers its lines, each stem has one label
file, and each split is scanned once, so that an index of the dataset tells all of them apart. -/

namespace DatasetAudit

open Fingerprint (mark)

namespace Labels

theorem Faulty.mark_notMem {words : List (List Char)} {reason : String} (h : Faulty words reason) :
    mark ∉ reason.toList := by
  cases h <;> decide

/-- As long as the numbers of lines do not overflow, no two lines have the same. -/
theorem numbered_parse {text : String} (h : (Text.lines text.toList).length < UInt32.size) :
    (parse text).Numbered := by
  have hAccounts := accounts_readLines h
  refine ⟨?_, ?_, fun error hError => ?_⟩
  · exact List.pairwise_map.mpr (hAccounts.ascending.imp UInt32.ne_of_lt)
  · exact List.pairwise_map.mpr (hAccounts.errorsAscending.imp UInt32.ne_of_lt)
  · obtain ⟨_, _, -, -, -, hFaulty⟩ := (hAccounts.errors error).mp hError
    exact hFaulty.mark_notMem

end Labels

namespace Scan

open DatasetAudit.Path (IsName HasNames)

variable {tree : FileTree} {directory root : Path} {names : List String} {files images : List Location}
  {file other : Location} {layout : Layout} {part : SplitLayout} {found : SplitSource}

theorem fileIn_injective (h : fileIn directory file = fileIn directory other) : file = other := by
  have hParts : directory.parts ++ file.map .name = directory.parts ++ other.map .name :=
    congrArg Path.parts h
  exact (List.map_inj_right fun _ _ => PathPart.name.inj).mp (List.append_cancel_left hParts)

theorem mem_of_mem_orphans (h : file ∈ orphans (labelTable files) images) : file ∈ files := by
  obtain ⟨⟨parts, _⟩, hEntry, rfl⟩ := List.mem_map.mp h
  have hFound := Std.TreeMap.mem_toList_iff_getElem?_eq_some.mp (List.mem_of_mem_filter hEntry)
  exact (mem_of_labelTable hFound).1

/-- Label files without an image have different stems. -/
theorem orphans_nodup (files images : List Location) : (orphans (labelTable files) images).Nodup := by
  apply List.pairwise_map.mpr
  apply List.Pairwise.imp_of_mem _ ((labelTable files).distinct_keys_toList.filter _)
  rintro ⟨parts, file⟩ ⟨parts', other⟩ hFile hOther hParts rfl
  have hFound := Std.TreeMap.mem_toList_iff_getElem?_eq_some.mp (List.mem_of_mem_filter hFile)
  have hFound' := Std.TreeMap.mem_toList_iff_getElem?_eq_some.mp (List.mem_of_mem_filter hOther)
  obtain rfl := (mem_of_labelTable hFound).2
  obtain rfl := (mem_of_labelTable hFound').2
  exact hParts Std.ReflCmp.compare_self

/-- A directory lies strictly above a root, both being relative paths. Then the name of a file below
the root may be that of one elsewhere in the directory. -/
def Encloses (directory root : Path) : Prop :=
  directory.absolute = false ∧ root.absolute = false ∧ directory.parts <+: root.parts ∧
    directory.parts ≠ root.parts

theorem not_encloses_of_resolved (h : layout.Resolved) (directory : Path) :
    ¬ Encloses directory layout.root := by
  rintro ⟨-, hRelative, -⟩
  rw [h.absolute] at hRelative
  cases hRelative

/-- Otherwise the files of a relative directory lie below the root if the directory does. -/
theorem isSome_stripBase?_fileIn (hApart : ¬ Encloses directory root)
    (hRelative : directory.absolute = false) (file : Location) :
    (Path.stripBase? root (fileIn directory file)).isSome ↔
      root.absolute = false ∧ root.parts <+: directory.parts := by
  simp only [Option.isSome_iff_exists, Path.stripBase?_eq_some_iff, exists_and_left]
  change root.absolute = directory.absolute ∧
    (∃ parts, directory.parts ++ file.map .name = root.parts ++ parts) ↔ _
  rw [hRelative]
  refine and_congr_right fun hRoot => ⟨?_, ?_⟩
  · rintro ⟨parts, hParts⟩
    rcases List.prefix_or_prefix_of_prefix (List.prefix_append directory.parts (file.map .name))
      (hParts ▸ List.prefix_append root.parts parts) with hAbove | hBelow
    · by_cases hSame : directory.parts = root.parts
      · exact hSame ▸ List.prefix_rfl
      · exact absurd ⟨hRelative, hRoot, hAbove, hSame⟩ hApart
    · exact hBelow
  · rintro ⟨rest, hRest⟩
    exact ⟨rest ++ file.map .name, by rw [← List.append_assoc, hRest]⟩

/-- Files below one directory are told apart by what they are called, seen from a root. -/
theorem relativeText_fileIn_injective (hPlain : directory.IsPlain)
    (hApart : ¬ Encloses directory root) (hFile : ∀ name ∈ file, IsName name)
    (hOther : ∀ name ∈ other, IsName name)
    (hText : root.relativeText (fileIn directory file) =
      root.relativeText (fileIn directory other)) : file = other := by
  have hSide : (fileIn directory file).absolute = true ∨
      ((Path.stripBase? root (fileIn directory file)).isSome ↔
        (Path.stripBase? root (fileIn directory other)).isSome) := by
    cases hAbsolute : directory.absolute with
    | true => exact .inl hAbsolute
    | false =>
        rw [isSome_stripBase?_fileIn hApart hAbsolute, isSome_stripBase?_fileIn hApart hAbsolute]
        exact .inr Iff.rfl
  have hPath : fileIn directory file = fileIn directory other :=
    Path.relativeText_injective (fileIn_isPlain hPlain hFile) (fileIn_isPlain hPlain hOther) rfl
      hSide hText
  exact fileIn_injective hPath

theorem relativeText_fileIn_nodup (hPlain : directory.IsPlain) (hApart : ¬ Encloses directory root)
    {listed : List Location} (hListed : listed.Nodup)
    (hNames : ∀ file ∈ listed, ∀ name ∈ file, IsName name) :
    (listed.map fun file => root.relativeText (fileIn directory file)).Nodup :=
  hListed.map_on fun file hFile other hOther hText =>
    relativeText_fileIn_injective hPlain hApart (hNames file hFile) (hNames other hOther) hText

/-- The label files of a layout have fewer lines than line numbers can count. -/
def ShortLabels (tree : FileTree) (layout : Layout) : Prop :=
  ∀ part ∈ layout.splits, ∀ files ∈ (listLabels tree part.labelsDir).toOption, ∀ file ∈ files,
    ∀ bytes ∈ (tree.read (fileIn part.labelsDir file).text).toOption,
      (Text.lines (Utf8.decodeLossy bytes).toList).length < UInt32.size

theorem numbered_of_rows_nil {labels : LabelState} (hRows : labels.rows = [])
    (hErrors : labels.errors = []) : labels.Numbered := by
  refine ⟨?_, ?_, ?_⟩ <;> simp [hRows, hErrors]

theorem numbered_record (hShort : ShortLabels tree layout) (hPart : part ∈ layout.splits)
    (h : listLabels tree part.labelsDir = .ok files) (image : Location) :
    (record tree root part (labelTable files) image).labels.Numbered := by
  rw [record]
  cases hLabel : (labelTable files)[stem image]? with
  | none => exact numbered_of_rows_nil rfl rfl
  | some file =>
      have hFile := (mem_of_labelTable hLabel).1
      change (readLabels tree (fileIn part.labelsDir file)).Numbered
      unfold readLabels
      split
      · rename_i bytes hRead
        apply Labels.numbered_parse
        exact hShort part hPart files (by rw [h]; rfl) file hFile bytes (by rw [hRead]; rfl)
      · exact numbered_of_rows_nil rfl rfl

theorem exists_of_split (h : split tree root part = .ok found) : ∃ images files,
    listLabels tree part.labelsDir = .ok files ∧ found.split = part.split ∧
      found.records = images.map (record tree root part (labelTable files)) ∧
      found.orphanLabels = (orphans (labelTable files) images).map
        fun file => root.relativeText (fileIn part.labelsDir file) := by
  obtain ⟨images, -, h⟩ := Except.exists_of_bind h
  obtain ⟨files, hFiles, h⟩ := Except.exists_of_bind h
  obtain rfl := Except.ok.inj h
  exact ⟨images, files, hFiles, rfl, rfl, rfl⟩

/-- A dataset in which splits, lines of labels and labels without images are told apart. -/
structure Distinct (source : Source) : Prop where
  splits : (source.splits.map SplitSource.split).Nodup
  labels : ∀ record ∈ source.records, record.labels.Numbered
  orphans : ∀ found ∈ source.splits, found.orphanLabels.Nodup

theorem distinct_of_scan {source : Source}
    (hDistinct : (layout.splits.map SplitLayout.split).Nodup) (hShort : ShortLabels tree layout)
    (h : scan tree layout = .ok source)
    (hOrphans : ∀ found ∈ source.splits, found.orphanLabels.Nodup) : Distinct source := by
  obtain ⟨-, hSplits, -⟩ := scan_eq_ok_iff.mp h
  refine ⟨?_, fun item hItem => ?_, hOrphans⟩
  · have hKey (part : SplitLayout) (found : SplitSource)
        (h : Scan.split tree layout.root part = .ok found) : found.split = part.split := by
      obtain ⟨_, _, -, hSplit, -⟩ := exists_of_split h
      exact hSplit
    rw [map_key_of_mapM hKey hSplits]
    exact hDistinct
  · obtain ⟨found, hFound, hItem⟩ := List.mem_flatMap.mp hItem
    obtain ⟨part, hPart, hSplit⟩ := exists_of_mem_mapM hSplits hFound
    obtain ⟨_, files, hFiles, -, hRecords, -⟩ := exists_of_split hSplit
    rw [hRecords] at hItem
    obtain ⟨image, -, rfl⟩ := List.mem_map.mp hItem
    exact numbered_record hShort hPart hFiles image

/-- Label files without an image are called differently, unless a relative root lies strictly below
their directory. -/
theorem orphanLabels_nodup (hTree : tree.WellFormed) (hPlain : part.labelsDir.IsPlain)
    (hApart : ¬ Encloses part.labelsDir root) (h : split tree root part = .ok found) :
    found.orphanLabels.Nodup := by
  obtain ⟨images, files, hFiles, -, -, hOrphans⟩ := exists_of_split h
  rw [hOrphans]
  apply relativeText_fileIn_nodup hPlain hApart (orphans_nodup files images)
  intro file hFile
  obtain ⟨_, hLies, -⟩ := exists_find_of_listLabels hTree hPlain hFiles (mem_of_mem_orphans hFile)
  exact hLies.isName

end Scan

namespace Index

/-- No image, and no label without an image, has a name that holds the separator. -/
structure Unmarked (index : Index) : Prop where
  images : ∀ entry ∈ index.entries, mark ∉ entry.image.toList
  labels : ∀ info ∈ index.splits, ∀ label ∈ info.orphanLabels, mark ∉ label.toList

instance (index : Index) : Decidable index.Unmarked :=
  decidable_of_iff ((∀ entry ∈ index.entries, mark ∉ entry.image.toList) ∧
      ∀ info ∈ index.splits, ∀ label ∈ info.orphanLabels, mark ∉ label.toList)
    ⟨fun ⟨images, labels⟩ => ⟨images, labels⟩, fun h => ⟨h.images, h.labels⟩⟩

/-- The index of a scanned dataset tells images, splits and labels apart by their names. -/
theorem named_of_build {files : FileView} {source : Source} {config : Config}
    {options : IndexOptions} {decoder : Decoder} {cache : IndexCache} {index : Index}
    (hSource : Scan.Distinct source)
    (h : build files source config options decoder cache = .ok index) (hNames : index.Unmarked) :
    index.Named where
  keys := (inOrder_of_build h).ascending.nodup
  images := hNames.images
  labels entry hEntry := by
    rw [(build_ok h).2] at hEntry
    obtain ⟨record, hRecord, rfl⟩ := List.mem_map.mp hEntry
    rw [entryOf_labels]
    exact hSource.labels record (mem_of_mem_chosenRecords hRecord)
  splits := by
    have hPerm := (sortByKey_perm SplitInfo.split
      (source.splits.map (splitInfo index.entries))).map SplitInfo.split
    rw [splits_of_build h, hPerm.nodup_iff, List.map_map]
    exact hSource.splits
  orphans info hInfo := by
    rw [splits_of_build h, mem_sortByKey] at hInfo
    obtain ⟨found, hFound, rfl⟩ := List.mem_map.mp hInfo
    exact hSource.orphans found hFound
  orphanNames := hNames.labels

end Index

end DatasetAudit
