import DatasetAudit.Index.Build
import DatasetAudit.Proofs.Grouping

/-! What an entry says about its file, and what a cache may be trusted with. An entry with a digest
was made from the bytes of its file, so its facts are those that any other entry would get from the
same bytes. -/

namespace DatasetAudit

namespace IndexCache

theorem lookup?_empty (basisDigest : String) (key : ImageKey) (stat : FileStat) :
    empty.lookup? basisDigest key stat = none := rfl

/-- Entries that are put into a table are found under their own keys. -/
theorem mem_of_getElem?_foldl {entries : List IndexEntry} {table : Std.TreeMap ImageKey IndexEntry}
    {key : ImageKey} {known : IndexEntry}
    (h : (entries.foldl (fun table entry => table.insert entry.key entry) table)[key]? =
      some known) :
    (known ∈ entries ∧ known.key = key) ∨ table[key]? = some known := by
  induction entries generalizing table with
  | nil => exact .inr h
  | cons entry rest ih =>
      rcases ih h with ⟨hMem, hKey⟩ | hTable
      · exact .inl ⟨List.mem_cons_of_mem _ hMem, hKey⟩
      · rw [Std.TreeMap.getElem?_insert] at hTable
        split at hTable
        · rename_i hCompare
          obtain rfl := Option.some.inj hTable
          exact .inl ⟨List.mem_cons_self, Std.LawfulEqCmp.eq_of_compare hCompare⟩
        · exact .inr hTable

/-- What is found in the cache of an index is an entry of it that holds for the settings and the
file, and that was made from bytes. -/
structure Hit (index : Index) (basisDigest : String) (key : ImageKey) (stat : FileStat)
    (known : IndexEntry) : Prop where
  settings : index.cacheBasis.digest = basisDigest
  mem : known ∈ index.entries
  key : known.key = key
  stat : known.sizeBytes = stat.sizeBytes ∧ known.mtimeNs = stat.mtimeNs
  read : known.contentHash.isSome

theorem hit_of_lookup? {index : Index} {basisDigest : String} {key : ImageKey} {stat : FileStat}
    {known : IndexEntry} (h : (ofIndex index).lookup? basisDigest key stat = some known) :
    Hit index basisDigest key stat known := by
  unfold lookup? at h
  split at h
  · rename_i hSettings
    obtain ⟨hFound, hHolds⟩ := Option.filter_eq_some_iff.mp h
    simp only [Bool.and_eq_true, beq_iff_eq] at hHolds
    obtain ⟨⟨hSize, hTime⟩, hRead⟩ := hHolds
    rcases mem_of_getElem?_foldl hFound with ⟨hMem, hKey⟩ | hNone
    · exact ⟨Option.some.inj hSettings, hMem, hKey, ⟨hSize, hTime⟩, hRead⟩
    · simp at hNone
  · cases h

end IndexCache

/-- The entry of a record whose file has been asked for its size and time only. -/
def SourceRecord.statedEntry (record : SourceRecord) (stat : FileStat) : IndexEntry :=
  { record.blankEntry with sizeBytes := stat.sizeBytes, mtimeNs := stat.mtimeNs }

namespace IndexEntry

variable {decoder : Decoder} {perceptualHashing : Bool} {bytes : List UInt8}

/-- Only the facts about the bytes change. -/
theorem withBytes_eq_withFactsOf (entry : IndexEntry) :
    entry.withBytes decoder perceptualHashing bytes =
      entry.withFactsOf (entry.withBytes decoder perceptualHashing bytes) := by
  cases hProbe : decoder.probe bytes <;> cases hHash : decoder.perceptualHash bytes <;>
    cases perceptualHashing <;> cases hError : entry.imageError <;>
      simp [withBytes, withProbe, withHash, withFactsOf, hProbe, hHash, hError]

theorem sizeBytes_withBytes (entry : IndexEntry) :
    (entry.withBytes decoder perceptualHashing bytes).sizeBytes = entry.sizeBytes := by
  rw [withBytes_eq_withFactsOf]
  rfl

theorem mtimeNs_withBytes (entry : IndexEntry) :
    (entry.withBytes decoder perceptualHashing bytes).mtimeNs = entry.mtimeNs := by
  rw [withBytes_eq_withFactsOf]
  rfl

/-- Entries about which nothing is known get the same facts from the same bytes. -/
theorem withFactsOf_withBytes (record other : SourceRecord) (stat stat' : FileStat) :
    (record.statedEntry stat).withFactsOf
        ((other.statedEntry stat').withBytes decoder perceptualHashing bytes) =
      (record.statedEntry stat).withBytes decoder perceptualHashing bytes := by
  cases hProbe : decoder.probe bytes <;> cases hHash : decoder.perceptualHash bytes <;>
    cases perceptualHashing <;>
      simp [withBytes, withProbe, withHash, withFactsOf, SourceRecord.statedEntry,
        SourceRecord.blankEntry, hProbe, hHash]

end IndexEntry

namespace Index

section EntryOf

variable {files : FileView} {decoder : Decoder} {perceptualHashing : Bool} {cache : IndexCache}
  {basisDigest : String} {record : SourceRecord}

/-- An entry is that of its record, with some facts about the file and its bytes. -/
theorem exists_entryOf : ∃ stat known,
    entryOf files decoder perceptualHashing cache basisDigest record =
      (record.statedEntry stat).withFactsOf known := by
  cases hStat : files.stat record.imagePath.text with
  | error _ =>
      simp only [entryOf, hStat]
      exact ⟨⟨0, -1⟩, { record.blankEntry with imageError := some _ }, rfl⟩
  | ok stat =>
      cases hLookup : cache.lookup? basisDigest record.key stat with
      | some known =>
          simp only [entryOf, hStat, hLookup]
          exact ⟨stat, known, rfl⟩
      | none =>
          cases hRead : files.read record.imagePath.text with
          | error _ =>
              simp only [entryOf, hStat, hLookup, hRead]
              exact ⟨stat, { record.statedEntry stat with imageError := some _ }, rfl⟩
          | ok bytes =>
              simp only [entryOf, hStat, hLookup, hRead]
              exact ⟨stat, _, IndexEntry.withBytes_eq_withFactsOf _⟩

theorem entryOf_key :
    (entryOf files decoder perceptualHashing cache basisDigest record).key = record.key := by
  obtain ⟨_, _, hEntry⟩ := exists_entryOf
  rw [hEntry]
  rfl

theorem entryOf_labels :
    (entryOf files decoder perceptualHashing cache basisDigest record).labels = record.labels := by
  obtain ⟨_, _, hEntry⟩ := exists_entryOf
  rw [hEntry]
  rfl

/-- Without a cache an entry with a digest comes from the bytes of its file. -/
theorem exists_bytes_of_contentHash
    (h : (entryOf files decoder perceptualHashing .empty basisDigest record).contentHash.isSome) :
    ∃ stat bytes, files.stat record.imagePath.text = .ok stat ∧
      files.read record.imagePath.text = .ok bytes ∧
        entryOf files decoder perceptualHashing .empty basisDigest record =
          (record.statedEntry stat).withBytes decoder perceptualHashing bytes := by
  cases hStat : files.stat record.imagePath.text with
  | error _ => simp [entryOf, hStat, SourceRecord.blankEntry] at h
  | ok stat =>
      cases hRead : files.read record.imagePath.text with
      | error _ =>
          simp [entryOf, hStat, hRead, IndexCache.lookup?_empty, SourceRecord.blankEntry] at h
      | ok bytes =>
          refine ⟨stat, bytes, rfl, rfl, ?_⟩
          simp only [entryOf, hStat, hRead, IndexCache.lookup?_empty]
          rfl

/-- A cache does no harm if what it knows is what the bytes of the file would tell. -/
theorem entryOf_eq_empty
    (hKnown : ∀ stat known, files.stat record.imagePath.text = .ok stat →
      cache.lookup? basisDigest record.key stat = some known →
        ∃ bytes, files.read record.imagePath.text = .ok bytes ∧
          (record.statedEntry stat).withFactsOf known =
            (record.statedEntry stat).withBytes decoder perceptualHashing bytes) :
    entryOf files decoder perceptualHashing cache basisDigest record =
      entryOf files decoder perceptualHashing .empty basisDigest record := by
  cases hStat : files.stat record.imagePath.text with
  | error _ => simp only [entryOf, hStat]
  | ok stat =>
      cases hLookup : cache.lookup? basisDigest record.key stat with
      | none => simp only [entryOf, hStat, hLookup, IndexCache.lookup?_empty]
      | some known =>
          obtain ⟨bytes, hRead, hFacts⟩ := hKnown stat known hStat hLookup
          simp only [entryOf, hStat, hLookup, hRead, IndexCache.lookup?_empty]
          exact hFacts

end EntryOf

theorem mem_of_mem_chosenRecords {options : IndexOptions} {records : List SourceRecord}
    {record : SourceRecord} (h : record ∈ chosenRecords options records) : record ∈ records := by
  unfold chosenRecords at h
  have hDistinct : record ∈ firstOfRuns SourceRecord.key (sortByKey SourceRecord.key records) := by
    split at h
    · exact h
    · exact List.mem_of_mem_take h
  exact mem_sortByKey.mp ((firstOfRuns_sublist _ _).subset hDistinct)

section Build

variable {files : FileView} {source : Source} {config : Config} {options : IndexOptions}
  {decoder : Decoder} {cache : IndexCache}

theorem build_congr {other : IndexCache}
    (hEntries : ∀ record ∈ chosenRecords options source.records,
      entryOf files decoder (basisOf source config options decoder).perceptualHashing cache
          (basisOf source config options decoder).digest record =
        entryOf files decoder (basisOf source config options decoder).perceptualHashing other
          (basisOf source config options decoder).digest record) :
    build files source config options decoder cache =
      build files source config options decoder other := by
  simp only [build, ofSource]
  rw [List.map_congr_left hEntries]

/-- An index is built if the root of the dataset is there and threads are granted. -/
theorem build_eq_ok_iff {index : Index} :
    build files source config options decoder cache = .ok index ↔
      (∃ stat, files.stat source.root.text = .ok stat) ∧
        options.startWorkers options.workers = .ok () ∧
          index = ofSource files source config options decoder cache := by
  unfold build
  cases files.stat source.root.text with
  | error _ => simp
  | ok stat => cases options.startWorkers options.workers <;> simp [eq_comm]

/-- An index holds the settings that it was made under and an entry for each chosen record. -/
theorem build_ok {index : Index} (h : build files source config options decoder cache = .ok index) :
    index.cacheBasis = basisOf source config options decoder ∧
      index.entries = (chosenRecords options source.records).map
        (entryOf files decoder (basisOf source config options decoder).perceptualHashing cache
          (basisOf source config options decoder).digest) := by
  obtain ⟨-, -, rfl⟩ := build_eq_ok_iff.mp h
  exact ⟨rfl, rfl⟩

/-- Where the root of a dataset is a directory and threads are granted, there is an index. -/
theorem exists_build_of_find {tree : FileTree} {place : Location}
    (hRoot : tree.find source.root.text = .ok (place, .directory))
    (hWorkers : options.startWorkers options.workers = .ok ()) :
    ∃ index, build tree.view source config options decoder cache = .ok index := by
  have hStat : tree.view.stat source.root.text = .ok ⟨0, -1⟩ := by
    change (tree.find source.root.text).map _ = _
    rw [hRoot]
    rfl
  exact ⟨_, build_eq_ok_iff.mpr ⟨⟨_, hStat⟩, hWorkers, rfl⟩⟩

end Build

end Index

end DatasetAudit
