import DatasetAudit.Index.Basic

/-! Small indexes given by what their entries carry, for the statements about single datasets. -/

namespace DatasetAudit

/-- An entry of which only the two hashes matter. -/
def IndexEntry.ofHashes (split : Split) (image : String) (contentHash : Option String)
    (perceptualHash : Option UInt64) : IndexEntry :=
  { split, image, contentHash, perceptualHash, sizeBytes := 1, mtimeNs := 1, labels := .missing }

/-- An index of which only the entries matter. -/
def Index.ofEntries (entries : List IndexEntry) : Index where
  schemaVersion := DatasetAudit.schemaVersion
  toolVersion := DatasetAudit.toolVersion
  datasetRoot := "/data"
  dataYaml := none
  classNames := []
  splits := []
  perceptualHashing := entries.any fun entry => entry.perceptualHash.isSome
  cacheBasis := ⟨"/data", DatasetAudit.toolVersion, [], true, 8, 0⟩
  cacheKey := ""
  entries

end DatasetAudit
