import DatasetAudit.Config
import DatasetAudit.Grouping
import DatasetAudit.Image.Decoder
import DatasetAudit.Index.Cache
import DatasetAudit.Scan
/-!
Building the index of a dataset. Whatever is wrong with a single image becomes a part of its entry;
only a root that is gone stops the work, and a system that grants no threads for it.
-/

namespace DatasetAudit

/-- How an index is to be built: `workers` is the number of threads, zero for as many as the system
likes, and `maxImages` the greatest number of entries, zero for all. What comes of asking the system
for threads is given with them; how the work is shared out between them changes nothing. -/
structure IndexOptions where
  workers : Nat := 0
  maxImages : Nat := 0
  startWorkers : Nat → Except String Unit := fun _ => .ok ()

namespace SourceRecord

/-- What the record is found by. -/
def key (record : SourceRecord) : ImageKey :=
  ⟨record.split, record.image⟩

/-- The entry of a record about whose file nothing is known yet. -/
def blankEntry (record : SourceRecord) : IndexEntry :=
  { split := record.split, image := record.image, label := record.label, labels := record.labels
    sizeBytes := 0, mtimeNs := -1 }

end SourceRecord

namespace IndexEntry

/-- An entry with the facts that another one holds about the bytes of its file. -/
def withFactsOf (entry known : IndexEntry) : IndexEntry :=
  { entry with
    contentHash := known.contentHash, perceptualHash := known.perceptualHash
    width := known.width, height := known.height, imageError := known.imageError }

/-- An entry with what a decoder says about the dimensions of its image. -/
def withProbe (entry : IndexEntry) : Probe → IndexEntry
  | .dimensions size => { entry with width := some size.width, height := some size.height }
  | .unknown => entry
  | .failed reason => { entry with imageError := some reason }

/-- An entry with what a decoder says about the perceptual hash of its image. -/
def withHash (entry : IndexEntry) : HashResult → IndexEntry
  | .hashed hash => { entry with perceptualHash := some hash }
  | .unavailable => entry
  | .failed reason => { entry with imageError := some reason }

/-- An entry with the facts about the bytes of its file. An image that is broken has no perceptual
hash. -/
def withBytes (entry : IndexEntry) (decoder : Decoder) (perceptualHashing : Bool)
    (bytes : List UInt8) : IndexEntry :=
  let entry := { entry with contentHash := some (Sha256.hexDigest bytes) }.withProbe
    (decoder.probe bytes)
  if perceptualHashing && entry.imageError.isNone then
    entry.withHash (decoder.perceptualHash bytes)
  else entry

end IndexEntry

namespace Index

/-- The entry of a record. What is known about the file from earlier is used again. -/
def entryOf (files : FileView) (decoder : Decoder) (perceptualHashing : Bool)
    (cache : IndexCache) (basisDigest : String) (record : SourceRecord) : IndexEntry :=
  let entry := record.blankEntry
  let path := record.imagePath.text
  match files.stat path with
  | .error error =>
    { entry with imageError := some s!"failed to stat image: {path}: {error.message}" }
  | .ok stat =>
    let entry := { entry with sizeBytes := stat.sizeBytes, mtimeNs := stat.mtimeNs }
    match cache.lookup? basisDigest record.key stat with
    | some known => entry.withFactsOf known
    | none =>
      match files.read path with
      | .error error =>
        { entry with imageError := some s!"failed to read image: {path}: {error.message}" }
      | .ok bytes => entry.withBytes decoder perceptualHashing bytes

/-- The records that are indexed: one of each key, in the order of keys, up to the limit. -/
def chosenRecords (options : IndexOptions) (records : List SourceRecord) : List SourceRecord :=
  let distinct := firstOfRuns SourceRecord.key (sortByKey SourceRecord.key records)
  if options.maxImages = 0 then distinct else distinct.take options.maxImages

/-- The settings of an index. -/
def basisOf (source : Source) (config : Config) (options : IndexOptions) (decoder : Decoder) :
    CacheBasis where
  datasetRoot := source.root.text
  toolVersion := DatasetAudit.toolVersion
  enabledChecks := config.enabledChecks.map CheckKind.name
  perceptualHashing := config.wantsPerceptualHashes && decoder.perceptualHashing
  phashHammingThreshold := config.checks.nearDuplicates.phashHammingThreshold
  maxImages := options.maxImages

/-- The record of a split with the number of its entries. -/
def splitInfo (entries : List IndexEntry) (source : SplitSource) : SplitInfo where
  split := source.split
  imagesDir := source.imagesDir.text
  labelsDir := source.labelsDir.text
  imageCount := entries.countP fun entry => entry.split = source.split
  orphanLabels := source.orphanLabels

/-- The index of a dataset whose root is there. -/
def ofSource (files : FileView) (source : Source) (config : Config) (options : IndexOptions)
    (decoder : Decoder) (cache : IndexCache) : Index :=
  let basis := basisOf source config options decoder
  let entries := (chosenRecords options source.records).map
    (entryOf files decoder basis.perceptualHashing cache basis.digest)
  { schemaVersion := DatasetAudit.schemaVersion
    toolVersion := DatasetAudit.toolVersion
    datasetRoot := source.root.text
    dataYaml := source.dataYaml
    classNames := source.classNames
    splits := sortByKey SplitInfo.split (source.splits.map (splitInfo entries))
    perceptualHashing := basis.perceptualHashing
    cacheBasis := basis
    cacheKey := DatasetAudit.cacheKey basis entries
    entries }

/-- Builds the index of a dataset. The root is looked at first, then threads are asked for. -/
def build (files : FileView) (source : Source) (config : Config) (options : IndexOptions)
    (decoder : Decoder) (cache : IndexCache) : Except AuditError Index :=
  match files.stat source.root.text with
  | .error error => .error (.dataAccess source.root.text error)
  | .ok _ =>
    match options.startWorkers options.workers with
    | .error reason => .error (.usage (.workers reason))
    | .ok () => .ok (ofSource files source config options decoder cache)

end Index

end DatasetAudit
