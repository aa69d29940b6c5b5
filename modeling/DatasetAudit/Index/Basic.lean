import DatasetAudit.Finding.Fingerprint
import DatasetAudit.Index.Entry
/-!
The index of a dataset: the snapshot of all images that every check reads, the settings it was
made under, and the digests that tell snapshots and settings apart.
-/

namespace DatasetAudit

/-- The name of the program. -/
def toolName : String := "dqa"

/-- The version of the program. -/
def toolVersion : String := "0.1.0"

/-- The version of the layout of the artifacts. -/
def schemaVersion : String := "1.0.0"

/-- The settings that decide what is worked out for each image. -/
structure CacheBasis where
  datasetRoot : String
  toolVersion : String
  enabledChecks : List String
  perceptualHashing : Bool
  phashHammingThreshold : UInt32
  maxImages : Nat
deriving DecidableEq, Repr

namespace CacheBasis

/-- The settings as text, one to a line. -/
def text (basis : CacheBasis) : String :=
  let checks := ",".intercalate basis.enabledChecks
  s!"root={basis.datasetRoot}\nversion={basis.toolVersion}\nchecks={checks}\n" ++
    s!"phash={basis.perceptualHashing}\nhamming={basis.phashHammingThreshold.toNat}\n" ++
    s!"max_images={basis.maxImages}"

/-- The digest of the settings. -/
def digest (basis : CacheBasis) : String :=
  Sha256.hexDigest (Utf8.encode basis.text)

end CacheBasis

/-- What a snapshot says about one file: its identity, size and time. -/
def IndexEntry.statLine (entry : IndexEntry) : String :=
  s!"{entry.identity}|{entry.sizeBytes.toNat}|{entry.mtimeNs.toInt}"

/-- The digest of the settings and a line for each file, as one text. -/
def cacheKeyText (basisDigest : String) (entries : List IndexEntry) : String :=
  "\n".intercalate (basisDigest :: entries.map IndexEntry.statLine)

/-- The digest by which a snapshot is told from others. -/
def cacheKey (basis : CacheBasis) (entries : List IndexEntry) : String :=
  Fingerprint.digestText (Utf8.encode (cacheKeyText basis.digest entries))

/-- One split of an indexed dataset. -/
structure SplitInfo where
  split : Split
  imagesDir : String
  labelsDir : String
  imageCount : Nat
  orphanLabels : List String
deriving DecidableEq, Repr

/-- The index of a dataset. -/
structure Index where
  schemaVersion : String
  toolVersion : String
  datasetRoot : String
  dataYaml : Option String
  classNames : List String
  splits : List SplitInfo
  perceptualHashing : Bool
  cacheBasis : CacheBasis
  cacheKey : String
  entries : List IndexEntry

namespace Index

/-- The number of classes. -/
def classCount (index : Index) : Nat :=
  index.classNames.length

/-- The entries of a split. -/
def entriesIn (index : Index) (split : Split) : List IndexEntry :=
  index.entries.filter fun entry => entry.split = split

end Index

end DatasetAudit
