import DatasetAudit.Artifact.Finding
import DatasetAudit.Index.Basic
/-!
The index of a dataset in JSON.
-/

namespace DatasetAudit

namespace AnnotationRow

/-- An annotation as JSON. -/
def toJson (row : AnnotationRow) : Json :=
  Json.record
    [("line", some (.ofNat row.line.toNat)), ("class_id", some (.integer row.classId.toInt)),
      ("x_center", some (.float row.box.xCenter)), ("y_center", some (.float row.box.yCenter)),
      ("width", some (.float row.box.width)), ("height", some (.float row.box.height)),
      ("polygon", row.polygon.map fun corners => .array (corners.map .float))]

/-- The names of an annotation's fields. -/
def fieldNames : List String :=
  ["line", "class_id", "x_center", "y_center", "width", "height", "polygon"]

/-- The annotation that a JSON value gives. -/
def ofJson? (value : Json) : Option AnnotationRow := do
  let fields ← Json.fields? fieldNames value
  let line ← fields.required? "line" Json.uint32?
  let classId ← fields.required? "class_id" Json.int64?
  let xCenter ← fields.required? "x_center" Json.float?
  let yCenter ← fields.required? "y_center" Json.float?
  let width ← fields.required? "width" Json.float?
  let height ← fields.required? "height" Json.float?
  let polygon ← fields.optional? "polygon" (Json.array? Json.float?)
  some { line, classId, polygon, box := { xCenter, yCenter, width, height } }

end AnnotationRow

namespace RowError

/-- An error as JSON. -/
def toJson (error : RowError) : Json :=
  .object
    [("line", .ofNat error.line.toNat), ("raw", .string error.raw),
      ("reason", .string error.reason)]

/-- The error that a JSON value gives. -/
def ofJson? (value : Json) : Option RowError := do
  let fields ← Json.fields? ["line", "raw", "reason"] value
  let line ← fields.required? "line" Json.uint32?
  let raw ← fields.required? "raw" Json.string?
  let reason ← fields.required? "reason" Json.string?
  some { line, raw, reason }

end RowError

namespace LabelState

/-- A label state as JSON: its name beside its fields. -/
def toJson : LabelState → Json
  | .missing => .object [("state", .string "missing")]
  | .parsed rows errors =>
    .object
      [("state", .string "parsed"), ("rows", .array (rows.map AnnotationRow.toJson)),
        ("errors", .array (errors.map RowError.toJson))]
  | .unreadable reason => .object [("state", .string "unreadable"), ("reason", .string reason)]

/-- The name of a state and the value that holds its fields. The name is given once, anywhere in an
object or at the front of an array. -/
def splitName? : Json → Option (String × Json)
  | .object members =>
    match members.filter fun (name, _) => name == "state" with
    | [(_, .string state)] =>
      some (state, .object (members.filter fun (name, _) => name != "state"))
    | _ => none
  | .array (.string state :: fields) => some (state, .array fields)
  | _ => none

/-- Whether a value can hold the fields of a state that has none. -/
def isFieldless : Json → Bool
  | .object _ => true
  | .array items => items.isEmpty
  | _ => false

/-- The label state of a name, from its fields. -/
def ofFields? (state : String) (value : Json) : Option LabelState :=
  match state with
  | "missing" => if isFieldless value then some .missing else none
  | "parsed" => do
    let fields ← Json.fields? ["rows", "errors"] value
    let rows ← fields.required? "rows" (Json.array? AnnotationRow.ofJson?)
    let errors ← fields.required? "errors" (Json.array? RowError.ofJson?)
    some (.parsed rows errors)
  | "unreadable" => do
    let fields ← Json.fields? ["reason"] value
    (fields.required? "reason" Json.string?).map .unreadable
  | _ => none

/-- The label state that a JSON value gives. -/
def ofJson? (value : Json) : Option LabelState :=
  if value.hasValue && value.depth ≤ Json.freeDepth then
    (splitName? value).bind fun (state, fields) => ofFields? state fields
  else none

end LabelState

namespace IndexEntry

/-- An entry as JSON. -/
def toJson (entry : IndexEntry) : Json :=
  Json.record
    [("split", some (.string entry.split.name)), ("image", some (.string entry.image)),
      ("label", entry.label.map .string),
      ("size_bytes", some (.ofNat entry.sizeBytes.toNat)),
      ("mtime_ns", some (.integer entry.mtimeNs.toInt)),
      ("content_hash", entry.contentHash.map .string),
      ("perceptual_hash", entry.perceptualHash.map fun hash => .ofNat hash.toNat),
      ("width", entry.width.map fun width => .ofNat width.toNat),
      ("height", entry.height.map fun height => .ofNat height.toNat),
      ("image_error", entry.imageError.map .string), ("labels", some entry.labels.toJson)]

/-- The names of an entry's fields. -/
def fieldNames : List String :=
  ["split", "image", "label", "size_bytes", "mtime_ns", "content_hash", "perceptual_hash", "width",
    "height", "image_error", "labels"]

/-- The entry that a JSON value gives. -/
def ofJson? (value : Json) : Option IndexEntry := do
  let fields ← Json.fields? fieldNames value
  let split ← fields.required? "split" (Json.oneOf? Split.all Split.name)
  let image ← fields.required? "image" Json.string?
  let label ← fields.optional? "label" Json.string?
  let sizeBytes ← fields.required? "size_bytes" Json.uint64?
  let mtimeNs ← fields.required? "mtime_ns" Json.int64?
  let contentHash ← fields.optional? "content_hash" Json.string?
  let perceptualHash ← fields.optional? "perceptual_hash" Json.uint64?
  let width ← fields.optional? "width" Json.uint32?
  let height ← fields.optional? "height" Json.uint32?
  let imageError ← fields.optional? "image_error" Json.string?
  let labels ← fields.required? "labels" LabelState.ofJson?
  some { split, image, label, sizeBytes, mtimeNs, contentHash, perceptualHash, width, height,
         imageError, labels }

end IndexEntry

namespace SplitInfo

/-- A split as JSON. -/
def toJson (info : SplitInfo) : Json :=
  .object
    [("name", .string info.split.name), ("images_dir", .string info.imagesDir),
      ("labels_dir", .string info.labelsDir), ("image_count", .ofNat info.imageCount),
      ("orphan_labels", .ofTexts info.orphanLabels)]

/-- The split that a JSON value gives. -/
def ofJson? (value : Json) : Option SplitInfo := do
  let fields ←
    Json.fields? ["name", "images_dir", "labels_dir", "image_count", "orphan_labels"] value
  let split ← fields.required? "name" (Json.oneOf? Split.all Split.name)
  let imagesDir ← fields.required? "images_dir" Json.string?
  let labelsDir ← fields.required? "labels_dir" Json.string?
  let imageCount ← fields.required? "image_count" Json.count?
  let orphanLabels ← fields.required? "orphan_labels" (Json.array? Json.string?)
  some { split, imagesDir, labelsDir, imageCount, orphanLabels }

end SplitInfo

namespace CacheBasis

/-- The settings of an index as JSON. -/
def toJson (basis : CacheBasis) : Json :=
  .object
    [("dataset_root", .string basis.datasetRoot), ("tool_version", .string basis.toolVersion),
      ("enabled_checks", .ofTexts basis.enabledChecks),
      ("perceptual_hashing", .bool basis.perceptualHashing),
      ("phash_hamming_threshold", .ofNat basis.phashHammingThreshold.toNat),
      ("max_images", .ofNat basis.maxImages)]

/-- The names of the fields of settings. -/
def fieldNames : List String :=
  ["dataset_root", "tool_version", "enabled_checks", "perceptual_hashing",
    "phash_hamming_threshold", "max_images"]

/-- The settings that a JSON value gives. -/
def ofJson? (value : Json) : Option CacheBasis := do
  let fields ← Json.fields? fieldNames value
  let datasetRoot ← fields.required? "dataset_root" Json.string?
  let toolVersion ← fields.required? "tool_version" Json.string?
  let enabledChecks ← fields.required? "enabled_checks" (Json.array? Json.string?)
  let perceptualHashing ← fields.required? "perceptual_hashing" Json.bool?
  let phashHammingThreshold ← fields.required? "phash_hamming_threshold" Json.uint32?
  let maxImages ← fields.required? "max_images" Json.count?
  some { datasetRoot, toolVersion, enabledChecks, perceptualHashing, phashHammingThreshold,
         maxImages }

end CacheBasis

namespace Index

/-- An index as JSON. -/
def toJson (index : Index) : Json :=
  Json.record
    [("schema_version", some (.string index.schemaVersion)),
      ("tool_version", some (.string index.toolVersion)),
      ("dataset_root", some (.string index.datasetRoot)),
      ("data_yaml", index.dataYaml.map .string),
      ("class_names", some (.ofTexts index.classNames)),
      ("splits", some (.array (index.splits.map SplitInfo.toJson))),
      ("perceptual_hashing", some (.bool index.perceptualHashing)),
      ("cache_basis", some index.cacheBasis.toJson),
      ("cache_key", some (.string index.cacheKey)),
      ("entries", some (.array (index.entries.map IndexEntry.toJson)))]

/-- The names of an index's fields. -/
def fieldNames : List String :=
  ["schema_version", "tool_version", "dataset_root", "data_yaml", "class_names", "splits",
    "perceptual_hashing", "cache_basis", "cache_key", "entries"]

/-- The index that a JSON value gives. -/
def ofJson? (value : Json) : Option Index := do
  let fields ← Json.fields? fieldNames value
  let schemaVersion ← fields.required? "schema_version" Json.string?
  let toolVersion ← fields.required? "tool_version" Json.string?
  let datasetRoot ← fields.required? "dataset_root" Json.string?
  let dataYaml ← fields.optional? "data_yaml" Json.string?
  let classNames ← fields.required? "class_names" (Json.array? Json.string?)
  let splits ← fields.required? "splits" (Json.array? SplitInfo.ofJson?)
  let perceptualHashing ← fields.required? "perceptual_hashing" Json.bool?
  let cacheBasis ← fields.required? "cache_basis" CacheBasis.ofJson?
  let cacheKey ← fields.required? "cache_key" Json.string?
  let entries ← fields.required? "entries" (Json.array? IndexEntry.ofJson?)
  some { schemaVersion, toolVersion, datasetRoot, dataYaml, classNames, splits, perceptualHashing,
         cacheBasis, cacheKey, entries }

/-- The index in a text. -/
def parse? (text : String) : Option Index :=
  (Json.parse? text).bind ofJson?

end Index

end DatasetAudit
