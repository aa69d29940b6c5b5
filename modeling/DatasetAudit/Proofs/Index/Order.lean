import DatasetAudit.Proofs.Counting
import DatasetAudit.Proofs.Index.Build
import Mathlib.Data.List.Forall2

/-! The order of an index. Its entries are those of the distinct keys of the dataset in ascending
order, and a limit keeps the first of them. So neither the order in which records were found nor
that of the splits shows in an index, as long as no record is given twice. -/

namespace DatasetAudit

/-- One part of a dataset holds the records of another in some order, and is otherwise the same. -/
def SplitSource.Rearranges (part other : SplitSource) : Prop :=
  { part with records := other.records } = other ∧ part.records.Perm other.records

namespace Source

/-- A dataset has the splits of another in some order, each with its records in some order, and is
otherwise the same. -/
def Rearranges (source other : Source) : Prop :=
  { source with splits := other.splits } = other ∧
    ∃ parts, source.splits.Perm parts ∧ List.Forall₂ SplitSource.Rearranges parts other.splits

/-- No record and no split is given twice, and every record is listed under its own split. -/
structure Tidy (source : Source) : Prop where
  keys : (source.records.map SourceRecord.key).Nodup
  splits : (source.splits.map SplitSource.split).Nodup
  listed : ∀ part ∈ source.splits, ∀ record ∈ part.records, record.split = part.split

theorem flatMap_records_perm {parts others : List SplitSource}
    (h : List.Forall₂ SplitSource.Rearranges parts others) :
    (parts.flatMap (·.records)).Perm (others.flatMap (·.records)) := by
  induction h with
  | nil => exact .nil
  | cons hPart _ ih => exact hPart.2.append ih

theorem Rearranges.records_perm {source other : Source} (h : source.Rearranges other) :
    source.records.Perm other.records := by
  obtain ⟨_, parts, hParts, hRecords⟩ := h
  exact (hParts.flatMap_right _).trans (flatMap_records_perm hRecords)

end Source

namespace Index

section Records

variable {records others : List SourceRecord} {options : IndexOptions}

/-- The keys of the chosen records are the first of the distinct keys. -/
theorem chosenRecords_keys (options : IndexOptions) (records : List SourceRecord) :
    ∃ keys, Ascending id keys ∧ (∀ key, key ∈ keys ↔ ∃ record ∈ records, record.key = key) ∧
      (chosenRecords options records).map SourceRecord.key =
        if options.maxImages = 0 then keys else keys.take options.maxImages := by
  have hSorted := sortByKey_pairwise SourceRecord.key records
  refine ⟨(firstOfRuns SourceRecord.key (sortByKey SourceRecord.key records)).map
    SourceRecord.key, ?_, ?_, ?_⟩
  · rw [Ascending, List.pairwise_map]
    exact ascending_firstOfRuns hSorted
  · intro key
    rw [mem_map_firstOfRuns, List.mem_map]
    simp only [mem_sortByKey]
  · rw [chosenRecords]
    split
    · rfl
    · rw [List.map_take]

theorem chosenRecords_eq_take {limit : Nat} (hLimit : limit ≠ 0) :
    chosenRecords { options with maxImages := limit } records =
      (chosenRecords { options with maxImages := 0 } records).take limit := by
  rw [chosenRecords, if_neg hLimit, chosenRecords, if_pos rfl]

theorem chosenRecords_eq_of_perm (hKeys : (records.map SourceRecord.key).Nodup)
    (hPerm : records.Perm others) : chosenRecords options records = chosenRecords options others := by
  rw [chosenRecords, chosenRecords, sortByKey_eq_of_perm hKeys hPerm]

end Records

section Entries

variable {files : FileView} {source other : Source} {config : Config} {options : IndexOptions}
  {decoder : Decoder} {cache : IndexCache} {index : Index}

/-- The entries of an index have the first of the distinct keys of the dataset, in ascending order;
without a limit they have all of them. -/
structure InOrder (source : Source) (options : IndexOptions) (index : Index) : Prop where
  ascending : Ascending IndexEntry.key index.entries
  chosen : ∃ keys, Ascending id keys ∧
    (∀ key, key ∈ keys ↔ ∃ record ∈ source.records, record.key = key) ∧
    index.entries.map IndexEntry.key =
      if options.maxImages = 0 then keys else keys.take options.maxImages

theorem inOrder_of_build (h : build files source config options decoder cache = .ok index) :
    InOrder source options index := by
  obtain ⟨keys, hAscending, hMem, hChosen⟩ := chosenRecords_keys options source.records
  have hKeys : index.entries.map IndexEntry.key =
      if options.maxImages = 0 then keys else keys.take options.maxImages := by
    rw [(build_ok h).2, List.map_map, ← hChosen]
    exact List.map_congr_left fun record _ => entryOf_key
  refine ⟨?_, keys, hAscending, hMem, hKeys⟩
  have hFirst : Ascending id (index.entries.map IndexEntry.key) := by
    rw [hKeys]
    split
    · exact hAscending
    · exact hAscending.sublist (List.take_sublist _ _)
  exact List.pairwise_map.mp hFirst

/-- Without a cache the digest of the settings makes no difference to an entry. -/
theorem entryOf_empty_congr {perceptualHashing : Bool} {record : SourceRecord}
    (basisDigest other : String) :
    entryOf files decoder perceptualHashing .empty basisDigest record =
      entryOf files decoder perceptualHashing .empty other record := by
  cases hStat : files.stat record.imagePath.text <;>
    simp only [entryOf, hStat, IndexCache.lookup?_empty]

/-- Where an index is built, it is built under every limit. -/
theorem exists_build_of_build (h : build files source config options decoder cache = .ok index)
    (limit : Nat) (cache' : IndexCache) :
    ∃ index', build files source config { options with maxImages := limit } decoder cache' =
      .ok index' := by
  obtain ⟨hRoot, hWorkers, -⟩ := build_eq_ok_iff.mp h
  exact ⟨_, build_eq_ok_iff.mpr ⟨hRoot, hWorkers, rfl⟩⟩

/-- Without a cache, a limit keeps the first entries as they are without it. -/
theorem entries_eq_take {limit : Nat} (hLimit : limit ≠ 0) {capped full : Index}
    (hCapped : build files source config { options with maxImages := limit } decoder .empty =
      .ok capped)
    (hFull : build files source config { options with maxImages := 0 } decoder .empty = .ok full) :
    capped.entries = full.entries.take limit := by
  rw [(build_ok hCapped).2, (build_ok hFull).2, chosenRecords_eq_take hLimit, ← List.map_take]
  exact List.map_congr_left fun record _ => entryOf_empty_congr _ _

/-- What is recorded about a part does not depend on the order of its records. -/
theorem map_splitInfo_eq {parts others : List SplitSource} (entries : List IndexEntry)
    (h : List.Forall₂ SplitSource.Rearranges parts others) :
    others.map (splitInfo entries) = parts.map (splitInfo entries) := by
  induction h with
  | nil => rfl
  | cons hPart _ ih =>
      rw [List.map_cons, List.map_cons, ih, ← hPart.1]
      rfl

/-- The order of records and of splits does not show in an index. -/
theorem build_rearranged (hTidy : source.Tidy) (hOther : source.Rearranges other) :
    build files other config options decoder cache =
      build files source config options decoder cache := by
  have hRecords : chosenRecords options source.records = chosenRecords options other.records :=
    chosenRecords_eq_of_perm hTidy.keys hOther.records_perm
  obtain ⟨hRest, parts, hParts, hEach⟩ := hOther
  generalize other.splits = splits at hRest hEach
  subst hRest
  have hSplits (entries : List IndexEntry) :
      sortByKey SplitInfo.split (splits.map (splitInfo entries)) =
        sortByKey SplitInfo.split (source.splits.map (splitInfo entries)) := by
    rw [map_splitInfo_eq entries hEach]
    symm
    apply sortByKey_eq_of_perm _ (hParts.map _)
    rw [List.map_map]
    exact hTidy.splits
  simp only [build, ofSource, ← hRecords, hSplits]
  rfl

theorem splits_of_build (h : build files source config options decoder cache = .ok index) :
    index.splits = sortByKey SplitInfo.split (source.splits.map (splitInfo index.entries)) := by
  obtain ⟨-, -, rfl⟩ := build_eq_ok_iff.mp h
  rfl

theorem splits_ascending (hSplits : (source.splits.map SplitSource.split).Nodup)
    (h : build files source config options decoder cache = .ok index) :
    Ascending SplitInfo.split index.splits := by
  rw [splits_of_build h]
  apply ascending_sortByKey
  rw [List.map_map]
  exact hSplits

/-- Every entry comes from a record, and so lies in a split of the dataset. -/
theorem exists_record_of_mem (h : build files source config options decoder cache = .ok index)
    {entry : IndexEntry} (hEntry : entry ∈ index.entries) :
    ∃ record ∈ source.records, record.key = entry.key := by
  rw [(build_ok h).2] at hEntry
  obtain ⟨record, hRecord, rfl⟩ := List.mem_map.mp hEntry
  exact ⟨record, mem_of_mem_chosenRecords hRecord, entryOf_key.symm⟩

theorem split_mem_of_build
    (hListed : ∀ part ∈ source.splits, ∀ record ∈ part.records, record.split = part.split)
    (h : build files source config options decoder cache = .ok index) {entry : IndexEntry}
    (hEntry : entry ∈ index.entries) : entry.split ∈ source.splits.map SplitSource.split := by
  obtain ⟨record, hRecord, hKey⟩ := exists_record_of_mem h hEntry
  obtain ⟨part, hPart, hRecord⟩ := List.mem_flatMap.mp hRecord
  have hSplit : record.split = entry.split := congrArg ImageKey.split hKey
  rw [← hSplit, hListed part hPart record hRecord]
  exact List.mem_map_of_mem hPart

/-- The counts of the splits add up to the number of entries. -/
theorem sum_imageCount (hTidy : source.Tidy)
    (h : build files source config options decoder cache = .ok index) :
    (index.splits.map SplitInfo.imageCount).sum = index.entries.length := by
  have hPerm := (sortByKey_perm SplitInfo.split
    (source.splits.map (splitInfo index.entries))).map SplitInfo.imageCount
  have hEntries : ∀ entry ∈ index.entries, entry.split ∈ source.splits.map SplitSource.split :=
    fun _ => split_mem_of_build hTidy.listed h
  rw [splits_of_build h, hPerm.sum_eq, List.map_map, ← sum_countP_eq_length hTidy.splits hEntries,
    List.map_map]
  rfl

/-- An index is in canonical order: its entries are those of the first distinct keys, a limit keeps
the first entries as they are without it, and for a dataset without repetitions the order of splits
and records does not show, while the splits are listed in order with counts that add up. -/
theorem build_canonical (files : FileView) (source : Source) (config : Config)
    (options : IndexOptions) (decoder : Decoder) (cache : IndexCache) (index : Index)
    (hBuild : build files source config options decoder cache = .ok index) :
    InOrder source options index ∧
    (∀ limit, limit ≠ 0 → ∃ capped full,
      build files source config { options with maxImages := limit } decoder .empty = .ok capped ∧
      build files source config { options with maxImages := 0 } decoder .empty = .ok full ∧
      capped.entries = full.entries.take limit) ∧
    (source.Tidy →
      (∀ other, source.Rearranges other →
        build files other config options decoder cache = .ok index) ∧
      Ascending SplitInfo.split index.splits ∧
      (index.splits.map SplitInfo.imageCount).sum = index.entries.length) := by
  refine ⟨inOrder_of_build hBuild, ?_, ?_⟩
  · intro limit hLimit
    obtain ⟨capped, hCapped⟩ := exists_build_of_build hBuild limit .empty
    obtain ⟨full, hFull⟩ := exists_build_of_build hBuild 0 .empty
    exact ⟨capped, full, hCapped, hFull, entries_eq_take hLimit hCapped hFull⟩
  · intro hTidy
    refine ⟨?_, splits_ascending hTidy.splits hBuild, sum_imageCount hTidy hBuild⟩
    intro other hOther
    rw [build_rearranged hTidy hOther, hBuild]

end Entries

/-- A record of an image in a directory of its split. -/
def recordOf (split : Split) (image : String) : SourceRecord where
  split := split
  image := image
  imagePath := .ofString ("/data/" ++ image)
  label := none
  labels := .missing

/-- A part of a dataset with these images. -/
def partOf (split : Split) (images : List String) : SplitSource where
  split := split
  imagesDir := .ofString "/data/images"
  labelsDir := .ofString "/data/labels"
  records := images.map (recordOf split)
  orphanLabels := []

/-- A dataset of these parts. -/
def sourceOf (splits : List SplitSource) : Source :=
  { root := .ofString "/data", dataYaml := none, classNames := [], splits }

/-- A disk on which every file is there and holds one byte. -/
def oneByteFiles : FileView where
  stat _ := .ok ⟨1, 1⟩
  read _ := .ok [0]

/-- Parts and images out of order, and a limit that cuts a split in two. -/
def jumbled : Source :=
  sourceOf [partOf .val ["z.png", "a.png"], partOf .train ["b.png"]]

theorem jumbled_canonical : ∃ index,
    build oneByteFiles jumbled {} { maxImages := 2 } .header .empty = .ok index ∧
    InOrder jumbled { maxImages := 2 } index ∧
    (∃ capped full, build oneByteFiles jumbled {} { maxImages := 1 } .header .empty = .ok capped ∧
      build oneByteFiles jumbled {} { maxImages := 0 } .header .empty = .ok full ∧
      capped.entries = full.entries.take 1) ∧
    build oneByteFiles (sourceOf [partOf .train ["b.png"], partOf .val ["a.png", "z.png"]])
      {} { maxImages := 2 } .header .empty = .ok index ∧
    Ascending SplitInfo.split index.splits ∧
    (index.splits.map SplitInfo.imageCount).sum = index.entries.length := by
  have hTidy : jumbled.Tidy := by
    refine ⟨by decide, by decide, ?_⟩
    intro part hPart record hRecord
    simp only [jumbled, sourceOf, List.mem_cons, List.not_mem_nil, or_false] at hPart
    rcases hPart with rfl | rfl <;>
      obtain ⟨image, _, rfl⟩ := List.mem_map.mp hRecord <;> rfl
  have hRearranged : jumbled.Rearranges
      (sourceOf [partOf .train ["b.png"], partOf .val ["a.png", "z.png"]]) := by
    refine ⟨rfl, [partOf .train ["b.png"], partOf .val ["z.png", "a.png"]], .swap _ _ [], ?_⟩
    exact .cons ⟨rfl, .refl _⟩ (.cons ⟨rfl, .swap _ _ []⟩ .nil)
  obtain ⟨hOrder, hLimits, hRest⟩ :=
    build_canonical oneByteFiles jumbled {} { maxImages := 2 } .header .empty _ rfl
  obtain ⟨hSame, hSplits, hCounts⟩ := hRest hTidy
  exact ⟨_, rfl, hOrder, hLimits 1 (by decide), hSame _ hRearranged, hSplits, hCounts⟩

end Index

end DatasetAudit
