import DatasetAudit.FileView
import DatasetAudit.Index.Basic
import Std.Data.TreeMap
/-!
What an earlier index knows about images. An entry is used again only under the same settings and
for a file whose size and time have not changed, and only if the file could be read.
-/

namespace DatasetAudit

/-- The entries of an earlier index by key, and the digest of its settings. -/
structure IndexCache where
  basisDigest : Option String := none
  entries : Std.TreeMap ImageKey IndexEntry := ∅

namespace IndexCache

/-- A cache that knows nothing. -/
def empty : IndexCache := {}

/-- What an index knows. Of entries with one key the last counts. -/
def ofIndex (index : Index) : IndexCache where
  basisDigest := some index.cacheBasis.digest
  entries := index.entries.foldl (fun entries entry => entries.insert entry.key entry) ∅

/-- The number of entries. -/
def size (cache : IndexCache) : Nat :=
  cache.entries.size

/-- Whether there is no entry. -/
def isEmpty (cache : IndexCache) : Bool :=
  cache.entries.isEmpty

/-- The earlier entry of an image, if it still holds for these settings and this file. -/
def lookup? (cache : IndexCache) (basisDigest : String) (key : ImageKey) (stat : FileStat) :
    Option IndexEntry :=
  if cache.basisDigest = some basisDigest then
    (cache.entries[key]?).filter fun entry =>
      entry.sizeBytes == stat.sizeBytes && entry.mtimeNs == stat.mtimeNs &&
        entry.contentHash.isSome
  else none

end IndexCache

end DatasetAudit
