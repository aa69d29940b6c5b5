import DatasetAudit.Proofs.Index.Basis
import DatasetAudit.Proofs.Index.Build
import DatasetAudit.Proofs.Index.Sample

/-! Histories of indexing, each run with the cache that the index before it left. As long as size
and time tell apart what is read at a path, and digests tell settings apart, every index is the one
that the run would have made with no cache at all. -/

namespace DatasetAudit

/-- A run of indexing: how files answer at the time, and what is asked for. -/
structure IndexRun where
  files : FileView
  source : Source
  config : Config
  options : IndexOptions
  decoder : Decoder

namespace IndexRun

/-- The settings of a run. -/
def basis (run : IndexRun) : CacheBasis :=
  Index.basisOf run.source run.config run.options run.decoder

/-- The index that a run makes with a cache. -/
def index (run : IndexRun) (cache : IndexCache) : Except AuditError Index :=
  Index.build run.files run.source run.config run.options run.decoder cache

/-- The cache after a run. A run without an index leaves the cache as it was. -/
def cacheAfter (cache : IndexCache) : Except AuditError Index → IndexCache
  | .ok index => .ofIndex index
  | .error _ => cache

/-- The indexes of runs one after another, each run with the cache that the one before left. -/
def history : IndexCache → List IndexRun → List (Except AuditError Index)
  | _, [] => []
  | cache, run :: rest =>
    let outcome := run.index cache
    outcome :: history (cacheAfter cache outcome) rest

/-- What runs have to have in common for the cache of one to serve another: a decoder, one path for
each image of a root, contents that change only with size or time, and settings whose digests
differ when they do. -/
structure Consistent (runs : List IndexRun) : Prop where
  decoder : ∀ run ∈ runs, ∀ other ∈ runs, run.decoder = other.decoder
  named : ∀ run ∈ runs, ∀ other ∈ runs, run.source.root.text = other.source.root.text →
    ∀ record ∈ run.source.records, ∀ record' ∈ other.source.records,
      record.image = record'.image → record.imagePath.text = record'.imagePath.text
  stable : ∀ run ∈ runs, ∀ other ∈ runs, ∀ path stat, run.files.stat path = .ok stat →
    other.files.stat path = .ok stat → run.files.read path = other.files.read path
  digests : ∀ run ∈ runs, ∀ other ∈ runs,
    Sha256.hexDigest (Utf8.encode run.basis.text) =
      Sha256.hexDigest (Utf8.encode other.basis.text) →
        Utf8.encode run.basis.text = Utf8.encode other.basis.text

section Runs

variable {runs : List IndexRun} {run other : IndexRun}

/-- Runs whose settings are written alike have one root, and work out the same hashes. -/
theorem settings_eq_of_text (h : run.basis.text = other.basis.text) :
    run.source.root.text = other.source.root.text ∧
      run.basis.perceptualHashing = other.basis.perceptualHashing := by
  obtain ⟨hRoot, hLines⟩ :=
    CacheBasis.lines_injective (Index.basisOf_plain ..) (Index.basisOf_plain ..) h
  exact ⟨hRoot, CacheBasis.perceptualHashing_eq hLines⟩

theorem Consistent.settings (h : Consistent runs) (hRun : run ∈ runs) (hOther : other ∈ runs)
    (hDigest : run.basis.digest = other.basis.digest) :
    run.source.root.text = other.source.root.text ∧
      run.basis.perceptualHashing = other.basis.perceptualHashing :=
  settings_eq_of_text (Utf8.encode_injective (h.digests run hRun other hOther hDigest))

/-- What a cold index of one run knows about an image is what another run would find out. -/
theorem Consistent.facts (h : Consistent runs) (hRun : run ∈ runs) (hOther : other ∈ runs)
    {index : Index} (hIndex : other.index .empty = .ok index) {record : SourceRecord}
    (hRecord : record ∈ run.source.records) {stat : FileStat}
    (hStat : run.files.stat record.imagePath.text = .ok stat) {known : IndexEntry}
    (hHit : IndexCache.Hit index run.basis.digest record.key stat known) :
    ∃ bytes, run.files.read record.imagePath.text = .ok bytes ∧
      (record.statedEntry stat).withFactsOf known =
        (record.statedEntry stat).withBytes run.decoder run.basis.perceptualHashing bytes := by
  obtain ⟨hBasis, hEntries⟩ := Index.build_ok hIndex
  have hDigest : run.basis.digest = other.basis.digest := by
    rw [← hHit.settings, hBasis]
    rfl
  obtain ⟨hRoot, hHashing⟩ := h.settings hRun hOther hDigest
  have hMem := hHit.mem
  rw [hEntries] at hMem
  obtain ⟨record', hRecord', rfl⟩ := List.mem_map.mp hMem
  obtain ⟨stat', bytes, hStat', hRead', hEntry⟩ := Index.exists_bytes_of_contentHash hHit.read
  have hImage : record.image = record'.image := by
    have hKey := hHit.key
    rw [Index.entryOf_key] at hKey
    exact (congrArg ImageKey.image hKey).symm
  have hPath := h.named run hRun other hOther hRoot record hRecord record'
    (Index.mem_of_mem_chosenRecords hRecord') hImage
  have hSame : stat' = stat := by
    obtain ⟨hSize, hTime⟩ := hHit.stat
    rw [hEntry, IndexEntry.sizeBytes_withBytes] at hSize
    rw [hEntry, IndexEntry.mtimeNs_withBytes] at hTime
    exact (FileStat.mk.injEq ..).mpr ⟨hSize, hTime⟩
  rw [← hPath, hSame] at hStat'
  rw [← hPath] at hRead'
  refine ⟨bytes, (h.stable run hRun other hOther _ _ hStat hStat').trans hRead', ?_⟩
  rw [hEntry, h.decoder run hRun other hOther, hHashing]
  exact IndexEntry.withFactsOf_withBytes record record' stat stat'

/-- The cache is empty or what the index of a run knows that was made without a cache. -/
def Traced (runs : List IndexRun) (cache : IndexCache) : Prop :=
  cache = .empty ∨ ∃ run ∈ runs, ∃ index, run.index .empty = .ok index ∧ cache = .ofIndex index

theorem Traced.cacheAfter {cache : IndexCache} (h : Traced runs cache) (hRun : run ∈ runs) :
    Traced runs (cacheAfter cache (run.index .empty)) := by
  cases hIndex : run.index .empty with
  | error _ => exact h
  | ok index => exact .inr ⟨run, hRun, index, hIndex, rfl⟩

/-- Such a cache makes no difference to a run. -/
theorem Consistent.index_eq_cold (h : Consistent runs) (hRun : run ∈ runs) {cache : IndexCache}
    (hCache : Traced runs cache) : run.index cache = run.index .empty := by
  rcases hCache with rfl | ⟨other, hOther, index, hIndex, rfl⟩
  · rfl
  · apply Index.build_congr
    intro record hRecord
    apply Index.entryOf_eq_empty
    intro stat known hStat hLookup
    exact h.facts hRun hOther hIndex (Index.mem_of_mem_chosenRecords hRecord) hStat
      (IndexCache.hit_of_lookup? hLookup)

theorem Consistent.history_eq_cold (h : Consistent runs) {rest : List IndexRun}
    (hRest : ∀ run ∈ rest, run ∈ runs) {cache : IndexCache} (hCache : Traced runs cache) :
    history cache rest = rest.map fun run => run.index .empty := by
  induction rest generalizing cache with
  | nil => rfl
  | cons run rest ih =>
      obtain ⟨hRun, hRest⟩ := List.forall_mem_cons.mp hRest
      have hCold := h.index_eq_cold hRun hCache
      rw [history, List.map_cons, hCold]
      congr 1
      exact ih hRest (hCache.cacheAfter hRun)

/-- Every index of a history is the one that its run makes without a cache, whatever settings,
files and labels change in between. -/
theorem cached_eq_cold (runs : List IndexRun) (hConsistent : Consistent runs) :
    history .empty runs = runs.map fun run => run.index .empty :=
  hConsistent.history_eq_cold (fun _ hRun => hRun) (.inl rfl)

end Runs

/-- A run over one image, whose file holds its own time and cannot be read at time three. -/
def atTime (time : Int64) (labels : LabelState) : IndexRun where
  files :=
    { stat := fun _ => .ok ⟨1, time⟩
      read := fun _ => if time = 3 then .error .notFound else .ok [time.toInt.toNat.toUInt8] }
  source :=
    { root := .ofString "/data", dataYaml := none, classNames := []
      splits := [{ split := .train, imagesDir := .ofString "/data", labelsDir := .ofString "/data"
                   records := [⟨.train, "a.png", .ofString "/data/a.png", none, labels⟩]
                   orphanLabels := [] }] }
  config := {}
  options := {}
  decoder := .header

/-- The labels change, then the file, and in the end the file cannot be read. -/
def changes : List IndexRun :=
  [(1, .missing), (1, .unreadable "gone"), (2, .missing), (3, .missing)].map
    fun (time, labels) => atTime time labels

theorem changes_cached_eq_cold :
    history .empty changes = changes.map fun run => run.index .empty := by
  have hAtTime : ∀ run ∈ changes, ∃ time labels, run = atTime time labels := by
    intro run hRun
    obtain ⟨⟨time, labels⟩, _, rfl⟩ := List.mem_map.mp hRun
    exact ⟨time, labels, rfl⟩
  apply cached_eq_cold
  refine ⟨?_, ?_, ?_, ?_⟩ <;> intro run hRun other hOther <;>
    obtain ⟨time, labels, rfl⟩ := hAtTime run hRun <;>
      obtain ⟨time', labels', rfl⟩ := hAtTime other hOther
  · rfl
  · intro _ record hRecord record' hRecord' _
    rw [List.mem_singleton.mp hRecord, List.mem_singleton.mp hRecord']
  · intro path stat hStat hStat'
    obtain rfl := Except.ok.inj hStat
    obtain rfl : time' = time := congrArg FileStat.mtimeNs (Except.ok.inj hStat')
    rfl
  · exact fun _ => rfl

end IndexRun

end DatasetAudit
