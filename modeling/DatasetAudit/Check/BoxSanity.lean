import DatasetAudit.Config
import DatasetAudit.Finding.About
import DatasetAudit.Finding.Fingerprint
import DatasetAudit.Index.Basic
/-!
The box check: boxes that are very small, very large or very narrow, and images with very many
annotations. Sizes are parts of the width and the height of the image.
-/

namespace DatasetAudit.BoxSanity

/-- The finding of an image with too many annotations. -/
def tooMany (config : BoxSanityConfig) (entry : IndexEntry) (count : Nat) : Finding :=
  let id := FindingId.bboxTooManyPerImage
  let limit := config.maxBoxesPerImageWarn
  let finding := Finding.ofCatalog id s!"Image has {count} annotations, above {limit}."
    (fingerprint id entry.fingerprintParts)
  let metrics := [("count", Json.ofNat count), ("threshold", .ofNat limit)]
  { finding with metrics := some (.object metrics) }.about entry

/-- A finding about the box of a row. -/
def boxFinding (id : FindingId) (entry : IndexEntry) (row : AnnotationRow) (text : String)
    (metrics : List (String × Json)) : Finding :=
  let line := lineText row.line
  let finding := Finding.ofCatalog id s!"Box on line {line} {text}"
    (fingerprint id (entry.fingerprintParts ++ [line]))
  ({ finding with metrics := some (.object metrics) }.about entry).ofClass row

/-- The measure of a box's area in metrics, with the limit that it is held against. -/
def areaMetrics (row : AnnotationRow) (area limit : Float) : List (String × Json) :=
  [("area", .ofFloat area), ("line", .ofNat row.line.toNat), ("threshold", .ofFloat limit)]

/-- The finding of a box with a small area. -/
def tiny (config : BoxSanityConfig) (entry : IndexEntry) (row : AnnotationRow) (area : Float) :
    Finding :=
  boxFinding .bboxTinyBox entry row s!"covers {Decimal.fixedText 6 area} of the image."
    (areaMetrics row area config.minBoxAreaRatioWarn)

/-- The finding of a box with a large area. -/
def oversized (config : BoxSanityConfig) (entry : IndexEntry) (row : AnnotationRow)
    (area : Float) : Finding :=
  boxFinding .bboxOversizedBox entry row s!"covers {Decimal.fixedText 3 area} of the image."
    (areaMetrics row area config.maxBoxAreaRatioWarn)

/-- The finding of a narrow box. -/
def narrow (config : BoxSanityConfig) (entry : IndexEntry) (row : AnnotationRow)
    (aspect : Float) : Finding :=
  boxFinding .bboxExtremeAspectRatio entry row
    s!"has aspect ratio {Decimal.fixedText 1 aspect}."
    [("aspect_ratio", .ofFloat aspect), ("line", .ofNat row.line.toNat),
      ("threshold", .ofFloat config.aspectRatioWarn)]

/-- The larger of two numbers, a NaN passed over. -/
def larger (x y : Float) : Float :=
  if x < y || x.isNaN then y else x

/-- The longer side of a box in terms of the shorter one, if both have a length. -/
def aspectRatio? (box : Box) : Option Float :=
  if 0 < box.width && 0 < box.height then
    some (larger (box.width / box.height) (box.height / box.width))
  else none

/-- The findings of one row. -/
def rowFindings (config : BoxSanityConfig) (entry : IndexEntry) (row : AnnotationRow) :
    List Finding :=
  let area := row.box.width * row.box.height
  (if area < config.minBoxAreaRatioWarn then [tiny config entry row area] else []) ++
    (if config.maxBoxAreaRatioWarn < area then [oversized config entry row area] else []) ++
    ((aspectRatio? row.box).filter fun aspect => config.aspectRatioWarn < aspect).toList.map
      (narrow config entry row)

/-- The findings of one entry. -/
def entryFindings (config : BoxSanityConfig) (entry : IndexEntry) : List Finding :=
  let rows := entry.labels.rows
  (if config.maxBoxesPerImageWarn < rows.length then [tooMany config entry rows.length] else []) ++
    rows.flatMap (rowFindings config entry)

/-- The findings of a dataset. -/
def findings (config : BoxSanityConfig) (index : Index) : List Finding :=
  index.entries.flatMap (entryFindings config)

end DatasetAudit.BoxSanity
