import DatasetAudit.Proofs.Index.Order

/-! Building an index again. As long as the files answer as they did, what an index knows of itself
gives that index again. -/

namespace DatasetAudit

namespace Index

variable {files later : FileView} {source : Source} {config : Config} {options : IndexOptions}
  {decoder : Decoder} {cache : IndexCache} {index : Index} {record : SourceRecord}

theorem chosenRecords_keys_nodup (options : IndexOptions) (records : List SourceRecord) :
    ((chosenRecords options records).map SourceRecord.key).Nodup := by
  obtain ⟨keys, hAscending, -, hKeys⟩ := chosenRecords_keys options records
  have hNodup : keys.Nodup := List.map_id keys ▸ hAscending.nodup
  rw [hKeys]
  split
  · exact hNodup
  · exact hNodup.sublist (List.take_sublist _ _)

/-- Only the root and the images are asked for. -/
theorem build_eq_of_files (hRoot : later.stat source.root.text = files.stat source.root.text)
    (hStat : ∀ record ∈ source.records,
      later.stat record.imagePath.text = files.stat record.imagePath.text)
    (hRead : ∀ record ∈ source.records,
      later.read record.imagePath.text = files.read record.imagePath.text) :
    build later source config options decoder cache =
      build files source config options decoder cache := by
  have hEntries : ∀ record ∈ chosenRecords options source.records,
      entryOf later decoder (basisOf source config options decoder).perceptualHashing cache
          (basisOf source config options decoder).digest record =
        entryOf files decoder (basisOf source config options decoder).perceptualHashing cache
          (basisOf source config options decoder).digest record := by
    intro record hRecord
    have hMem := mem_of_mem_chosenRecords hRecord
    rw [entryOf, entryOf, hStat record hMem, hRead record hMem]
  simp only [build, ofSource, hRoot]
  rw [List.map_congr_left hEntries]

/-- An index that was made without a cache is made again from its own. -/
theorem build_ofIndex (h : build files source config options decoder .empty = .ok index) :
    build files source config options decoder (.ofIndex index) = .ok index := by
  rw [← h]
  apply build_congr
  intro record hRecord
  apply entryOf_eq_empty
  intro stat known hStat hLookup
  have hHit := IndexCache.hit_of_lookup? hLookup
  have hMem := hHit.mem
  rw [(build_ok h).2] at hMem
  obtain ⟨other, hOther, rfl⟩ := List.mem_map.mp hMem
  obtain rfl : other = record :=
    List.inj_on_of_nodup_map (chosenRecords_keys_nodup options source.records) hOther hRecord
      (entryOf_key.symm.trans hHit.key)
  obtain ⟨found, bytes, hFound, hBytes, hEntry⟩ := exists_bytes_of_contentHash hHit.read
  obtain rfl : found = stat := Except.ok.inj (hFound.symm.trans hStat)
  refine ⟨bytes, hBytes, ?_⟩
  rw [hEntry]
  exact IndexEntry.withFactsOf_withBytes other other found found

end Index

end DatasetAudit
