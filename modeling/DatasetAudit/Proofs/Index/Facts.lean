import DatasetAudit.Proofs.Check.Outcome
import DatasetAudit.Proofs.Index.History

/-! How the facts about an image go together, in every index of a history. A run may take over what
a run before it found out, and that one may have had another decoder; but no run takes over what was
found under other settings, so an index without perceptual hashing is free of their hashes. -/

namespace DatasetAudit

/-- The facts of an entry fit each other: an image that could not be read is broken and nothing else
is known about it, only a sound image of an index with perceptual hashing has a perceptual hash, and
dimensions come together. -/
structure IndexEntry.Coherent (perceptualHashing : Bool) (entry : IndexEntry) : Prop where
  unread : entry.contentHash = none → entry.imageError.isSome ∧ entry.perceptualHash = none ∧
    entry.width = none ∧ entry.height = none
  hashed : entry.perceptualHash.isSome → entry.contentHash.isSome ∧ entry.imageError = none ∧
    perceptualHashing = true
  sized : entry.width.isSome ↔ entry.height.isSome

namespace IndexEntry

variable {perceptualHashing : Bool} {entry known : IndexEntry}

/-- Nothing but the reason is known about an image that could not be read. -/
theorem coherent_of_unread (hError : entry.imageError.isSome) (hHash : entry.perceptualHash = none)
    (hWidth : entry.width = none) (hHeight : entry.height = none) :
    entry.Coherent perceptualHashing where
  unread _ := ⟨hError, hHash, hWidth, hHeight⟩
  hashed h := by simp [hHash] at h
  sized := by rw [hWidth, hHeight]

/-- The facts are taken over together. -/
theorem Coherent.withFactsOf (h : known.Coherent perceptualHashing) :
    (entry.withFactsOf known).Coherent perceptualHashing :=
  ⟨h.unread, h.hashed, h.sized⟩

/-- Bytes give a digest, and a perceptual hash only if the decoder found nothing wrong. -/
theorem coherent_withBytes (record : SourceRecord) (stat : FileStat) (decoder : Decoder)
    (bytes : List UInt8) :
    ((record.statedEntry stat).withBytes decoder perceptualHashing bytes).Coherent
      perceptualHashing := by
  cases hProbe : decoder.probe bytes <;> cases hHash : decoder.perceptualHash bytes <;>
    cases perceptualHashing <;> constructor <;>
      simp [withBytes, withProbe, withHash, SourceRecord.statedEntry, SourceRecord.blankEntry,
        hProbe, hHash]

end IndexEntry

namespace Index

section EntryOf

variable {files : FileView} {decoder : Decoder} {perceptualHashing : Bool} {cache : IndexCache}
  {basisDigest : String} {record : SourceRecord}

/-- The facts of an entry fit each other if those do that the cache offers under its settings. -/
theorem entryOf_coherent
    (hKnown : ∀ stat known, cache.lookup? basisDigest record.key stat = some known →
      known.Coherent perceptualHashing) :
    (entryOf files decoder perceptualHashing cache basisDigest record).Coherent
      perceptualHashing := by
  cases hStat : files.stat record.imagePath.text with
  | error _ =>
      simp only [entryOf, hStat]
      exact IndexEntry.coherent_of_unread rfl rfl rfl rfl
  | ok stat =>
      cases hLookup : cache.lookup? basisDigest record.key stat with
      | some known =>
          simp only [entryOf, hStat, hLookup]
          exact (hKnown stat known hLookup).withFactsOf
      | none =>
          cases hRead : files.read record.imagePath.text with
          | error _ =>
              simp only [entryOf, hStat, hLookup, hRead]
              exact IndexEntry.coherent_of_unread rfl rfl rfl rfl
          | ok bytes =>
              simp only [entryOf, hStat, hLookup, hRead]
              exact IndexEntry.coherent_withBytes record stat decoder bytes

end EntryOf

/-- An index has perceptual hashing if its settings have. -/
theorem perceptualHashing_of_build {files : FileView} {source : Source} {config : Config}
    {options : IndexOptions} {decoder : Decoder} {cache : IndexCache} {index : Index}
    (h : build files source config options decoder cache = .ok index) :
    index.perceptualHashing = (basisOf source config options decoder).perceptualHashing := by
  obtain ⟨-, -, rfl⟩ := build_eq_ok_iff.mp h
  rfl

/-- An image that could not be read is reported as broken. -/
theorem exists_corruptImage {index : Index} {config : Config} {entry : IndexEntry}
    (hEnabled : config.isEnabled .integrity = true) (hEntry : entry ∈ index.entries)
    (hError : entry.imageError.isSome) :
    ∃ finding ∈ findingsOf .integrity (runChecks index config),
      finding.id = .integrityCorruptImage ∧ finding.split = some entry.split ∧
        finding.image = some entry.image := by
  obtain ⟨reason, hReason⟩ := Option.isSome_iff_exists.mp hError
  refine ⟨Integrity.corruptImage entry reason, ?_, rfl, rfl, rfl⟩
  rw [findingsOf_runChecks, CheckOutcome.findings_ofCheck hEnabled rfl]
  have hOwn : Integrity.corruptImage entry reason ∈
      Integrity.entryFindings entry index.classCount := by
    simp [Integrity.entryFindings, hReason]
  exact List.mem_append_left _ (List.mem_flatMap.mpr ⟨entry, hEntry, hOwn⟩)

end Index

namespace IndexRun

/-- Settings with one digest are written alike. -/
def Distinguished (runs : List IndexRun) : Prop :=
  ∀ run ∈ runs, ∀ other ∈ runs,
    run.basis.digest = other.basis.digest → run.basis.text = other.basis.text

/-- The index of a run, with facts that fit each other under the settings of the run. -/
structure Made (run : IndexRun) (index : Index) : Prop where
  basis : index.cacheBasis = run.basis
  hashing : index.perceptualHashing = run.basis.perceptualHashing
  coherent : ∀ entry ∈ index.entries, entry.Coherent run.basis.perceptualHashing

/-- The cache is empty or what the index of a run knows. -/
def Kept (runs : List IndexRun) (cache : IndexCache) : Prop :=
  cache = .empty ∨ ∃ run ∈ runs, ∃ index, run.Made index ∧ cache = .ofIndex index

section Runs

variable {runs : List IndexRun} {run other : IndexRun} {cache : IndexCache} {index : Index}

/-- What a run finds in the cache fits the settings of that run, whatever run it is from. -/
theorem Distinguished.coherent_of_lookup? (h : Distinguished runs) (hRun : run ∈ runs)
    (hCache : Kept runs cache) {key : ImageKey} {stat : FileStat} {known : IndexEntry}
    (hLookup : cache.lookup? run.basis.digest key stat = some known) :
    known.Coherent run.basis.perceptualHashing := by
  rcases hCache with rfl | ⟨other, hOther, index, hMade, rfl⟩
  · rw [IndexCache.lookup?_empty] at hLookup
    cases hLookup
  · have hHit := IndexCache.hit_of_lookup? hLookup
    have hDigest : run.basis.digest = other.basis.digest := by
      rw [← hHit.settings, hMade.basis]
    rw [(settings_eq_of_text (h run hRun other hOther hDigest)).2]
    exact hMade.coherent known hHit.mem

/-- One run. -/
theorem Distinguished.made (h : Distinguished runs) (hRun : run ∈ runs) (hCache : Kept runs cache)
    (hIndex : run.index cache = .ok index) : run.Made index := by
  obtain ⟨hBasis, hEntries⟩ := Index.build_ok hIndex
  refine ⟨hBasis, Index.perceptualHashing_of_build hIndex, ?_⟩
  intro entry hEntry
  rw [hEntries] at hEntry
  obtain ⟨record, -, rfl⟩ := List.mem_map.mp hEntry
  exact Index.entryOf_coherent fun _ _ hLookup => h.coherent_of_lookup? hRun hCache hLookup

theorem Distinguished.kept_cacheAfter (h : Distinguished runs) (hRun : run ∈ runs)
    (hCache : Kept runs cache) : Kept runs (cacheAfter cache (run.index cache)) := by
  cases hIndex : run.index cache with
  | error _ => exact hCache
  | ok index => exact .inr ⟨run, hRun, index, h.made hRun hCache hIndex, rfl⟩

/-- All runs from a cache on. -/
theorem Distinguished.exists_made (h : Distinguished runs) {rest : List IndexRun}
    (hRest : ∀ run ∈ rest, run ∈ runs) (hCache : Kept runs cache)
    (hIndex : .ok index ∈ history cache rest) : ∃ run ∈ runs, run.Made index := by
  induction rest generalizing cache with
  | nil => cases hIndex
  | cons run rest ih =>
      obtain ⟨hRun, hRest⟩ := List.forall_mem_cons.mp hRest
      rcases List.mem_cons.mp hIndex with hFirst | hLater
      · exact ⟨run, hRun, h.made hRun hCache hFirst.symm⟩
      · exact ih hRest (h.kept_cacheAfter hRun hCache) hLater

/-- In every index of a history the facts of all entries fit each other. So there is no perceptual
hash in an index without perceptual hashing, and an image that could not be read is reported by
every run of the integrity check. -/
theorem history_coherent (runs : List IndexRun) (hDigests : Distinguished runs) :
    ∀ index, .ok index ∈ history .empty runs →
      (∀ entry ∈ index.entries, entry.Coherent index.perceptualHashing) ∧
      (index.perceptualHashing = false → ∀ entry ∈ index.entries, entry.perceptualHash = none) ∧
      ∀ config : Config, config.isEnabled .integrity = true →
        ∀ entry ∈ index.entries, entry.contentHash = none →
          ∃ finding ∈ findingsOf .integrity (runChecks index config),
            finding.id = .integrityCorruptImage ∧ finding.split = some entry.split ∧
              finding.image = some entry.image := by
  intro index hIndex
  obtain ⟨run, -, hMade⟩ := hDigests.exists_made (fun _ hRun => hRun) (.inl rfl) hIndex
  have hCoherent : ∀ entry ∈ index.entries, entry.Coherent index.perceptualHashing := by
    rw [hMade.hashing]
    exact hMade.coherent
  refine ⟨hCoherent, ?_, ?_⟩
  · intro hOff entry hEntry
    cases hHash : entry.perceptualHash with
    | none => rfl
    | some hash =>
        obtain ⟨-, -, hOn⟩ := (hCoherent entry hEntry).hashed (hHash ▸ rfl)
        rw [hOff] at hOn
        cases hOn
  · intro config hEnabled entry hEntry hUnread
    exact Index.exists_corruptImage hEnabled hEntry ((hCoherent entry hEntry).unread hUnread).1

end Runs

/-- A decoder to which every image is one pixel and looks the same. -/
def onePixel : Decoder where
  probe _ := .dimensions ⟨1, 1⟩
  perceptualHash _ := .hashed 0
  perceptualHashing := true

/-- A decoder that could hash, but to which every image is broken. -/
def pessimist : Decoder where
  probe _ := .failed "truncated"
  perceptualHash _ := .failed "truncated"
  perceptualHashing := true

/-- A run at a time that wants perceptual hashes from a decoder. -/
def hashingAt (time : Int64) (decoder : Decoder) : IndexRun :=
  { atTime time .missing with
    config := { checks := { nearDuplicates := { enabled := true } } }
    decoder }

/-- The settings of such a run depend on whether the decoder ever hashes. -/
theorem basis_hashingAt {time time' : Int64} {decoder decoder' : Decoder}
    (h : decoder.perceptualHashing = decoder'.perceptualHashing) :
    (hashingAt time decoder).basis = (hashingAt time' decoder').basis := by
  simp only [basis, Index.basisOf, hashingAt, atTime, h]

/-- Hashes are worked out, taken over by a run with another decoder, left out, and worked out again
for a file that has changed; in the end there is no file to read. -/
def decoders : List IndexRun :=
  [(1, onePixel), (1, pessimist), (1, .header), (2, pessimist), (3, .header)].map
    fun (time, decoder) => hashingAt time decoder

theorem decoders_distinguished : Distinguished decoders := by
  have hApart : (hashingAt 1 onePixel).basis.digest ≠ (hashingAt 1 .header).basis.digest := by
    decide +kernel
  have hEither : ∀ run ∈ decoders,
      run.basis = (hashingAt 1 onePixel).basis ∨ run.basis = (hashingAt 1 .header).basis := by
    intro run hRun
    obtain ⟨⟨time, decoder⟩, -, rfl⟩ := List.mem_map.mp hRun
    cases hHashing : decoder.perceptualHashing with
    | true => exact .inl (basis_hashingAt hHashing)
    | false => exact .inr (basis_hashingAt hHashing)
  intro run hRun other hOther hDigest
  rcases hEither run hRun with hRun | hRun <;> rcases hEither other hOther with hOther | hOther <;>
    rw [hRun, hOther] at hDigest ⊢
  · exact absurd hDigest hApart
  · exact absurd hDigest.symm hApart

theorem decoders_history_coherent : Distinguished decoders ∧
    ∃ index, .ok index ∈ history .empty decoders ∧ index.entries.length = 1 ∧
      (∀ entry ∈ index.entries, entry.Coherent index.perceptualHashing) ∧
      index.perceptualHashing = false ∧ (∀ entry ∈ index.entries, entry.perceptualHash = none) := by
  have hHeader (cache : IndexCache) : ∃ index, (hashingAt 1 .header).index cache = .ok index ∧
      index.entries.length = 1 ∧ index.perceptualHashing = false :=
    ⟨_, rfl, by rw [Index.ofSource, List.length_map]; decide +kernel, rfl⟩
  -- The run is the third of them, whatever cache the two before it leave.
  obtain ⟨index, hIndex, hLength, hOff⟩ : ∃ index, .ok index ∈ history .empty decoders ∧
      index.entries.length = 1 ∧ index.perceptualHashing = false := by
    obtain ⟨index, hIndex, hFacts⟩ := hHeader
      (cacheAfter (cacheAfter .empty ((hashingAt 1 onePixel).index .empty))
        ((hashingAt 1 pessimist).index
          (cacheAfter .empty ((hashingAt 1 onePixel).index .empty))))
    exact ⟨index, .tail _ (.tail _ (hIndex ▸ .head _)), hFacts⟩
  obtain ⟨hCoherent, hNone, -⟩ := history_coherent decoders decoders_distinguished index hIndex
  exact ⟨decoders_distinguished, index, hIndex, hLength, hCoherent, hOff, hNone hOff⟩

end IndexRun

end DatasetAudit
