import DatasetAudit.Check.Kind
import DatasetAudit.Error
import DatasetAudit.Severity
import DatasetAudit.Text.Blank
import DatasetAudit.Yaml.Settings
/-!
The configuration of an audit: which checks run, their thresholds, and the severity from which a
finding fails the run. Every level knows its settings by name and refuses others.
-/

namespace DatasetAudit

/-- Settings of the integrity check. -/
structure IntegrityConfig where
  enabled : Bool := true

/-- Settings of the class distribution check. -/
structure ClassDistributionConfig where
  enabled : Bool := true
  minInstancesPerClassWarn : UInt64 := 50
  maxClassShareWarn : Float := 0.8
  splitDriftJsdWarn : Float := 0.1
  splitDriftJsdHigh : Float := 0.2

/-- Settings of the box check. -/
structure BoxSanityConfig where
  enabled : Bool := true
  minBoxAreaRatioWarn : Float := 0.0001
  maxBoxAreaRatioWarn : Float := 0.9
  maxBoxesPerImageWarn : Nat := 300
  aspectRatioWarn : Float := 20

/-- Settings of the duplicates check. -/
structure DuplicatesConfig where
  enabled : Bool := true

/-- Settings of the near-duplicates check. -/
structure NearDuplicatesConfig where
  enabled : Bool := false
  phashHammingThreshold : UInt32 := 8

/-- Settings of the leakage check. -/
structure LeakageConfig where
  enabled : Bool := true
  includeNearDup : Bool := false

/-- Settings of all checks. -/
structure ChecksConfig where
  integrity : IntegrityConfig := {}
  classDistribution : ClassDistributionConfig := {}
  boxSanity : BoxSanityConfig := {}
  duplicates : DuplicatesConfig := {}
  nearDuplicates : NearDuplicatesConfig := {}
  leakage : LeakageConfig := {}

/-- The configuration of an audit. -/
structure Config where
  version : UInt32 := 1
  failOn : Severity := .high
  checks : ChecksConfig := {}

namespace Config

open Yaml (Document Node)

/-- Reads the settings of the integrity check. -/
def integrity? (doc : Document) (node : Node) : Option IntegrityConfig := do
  let settings ← doc.settings? ["enabled"] node
  let base : IntegrityConfig := {}
  let enabled ← doc.setting? settings "enabled" base.enabled Document.bool?
  some { enabled }

/-- Reads the settings of the class distribution check. -/
def classDistribution? (doc : Document) (node : Node) : Option ClassDistributionConfig := do
  let settings ← doc.settings?
    ["enabled", "min_instances_per_class_warn", "max_class_share_warn", "split_drift_jsd_warn",
      "split_drift_jsd_high"] node
  let base : ClassDistributionConfig := {}
  let enabled ← doc.setting? settings "enabled" base.enabled Document.bool?
  let minInstancesPerClassWarn ←
    doc.setting? settings "min_instances_per_class_warn" base.minInstancesPerClassWarn
      fun doc node => (Document.below? UInt64.size doc node).map UInt64.ofNat
  let maxClassShareWarn ←
    doc.setting? settings "max_class_share_warn" base.maxClassShareWarn Document.float?
  let splitDriftJsdWarn ←
    doc.setting? settings "split_drift_jsd_warn" base.splitDriftJsdWarn Document.float?
  let splitDriftJsdHigh ←
    doc.setting? settings "split_drift_jsd_high" base.splitDriftJsdHigh Document.float?
  some { enabled, minInstancesPerClassWarn, maxClassShareWarn, splitDriftJsdWarn,
         splitDriftJsdHigh }

/-- Reads the settings of the box check. -/
def boxSanity? (doc : Document) (node : Node) : Option BoxSanityConfig := do
  let settings ← doc.settings?
    ["enabled", "min_box_area_ratio_warn", "max_box_area_ratio_warn", "max_boxes_per_image_warn",
      "aspect_ratio_warn"] node
  let base : BoxSanityConfig := {}
  let enabled ← doc.setting? settings "enabled" base.enabled Document.bool?
  let minBoxAreaRatioWarn ←
    doc.setting? settings "min_box_area_ratio_warn" base.minBoxAreaRatioWarn Document.float?
  let maxBoxAreaRatioWarn ←
    doc.setting? settings "max_box_area_ratio_warn" base.maxBoxAreaRatioWarn Document.float?
  let maxBoxesPerImageWarn ←
    doc.setting? settings "max_boxes_per_image_warn" base.maxBoxesPerImageWarn
      (Document.below? UInt64.size)
  let aspectRatioWarn ←
    doc.setting? settings "aspect_ratio_warn" base.aspectRatioWarn Document.float?
  some { enabled, minBoxAreaRatioWarn, maxBoxAreaRatioWarn, maxBoxesPerImageWarn, aspectRatioWarn }

/-- Reads the settings of the duplicates check. -/
def duplicates? (doc : Document) (node : Node) : Option DuplicatesConfig := do
  let settings ← doc.settings? ["enabled"] node
  let base : DuplicatesConfig := {}
  let enabled ← doc.setting? settings "enabled" base.enabled Document.bool?
  some { enabled }

/-- Reads the settings of the near-duplicates check. -/
def nearDuplicates? (doc : Document) (node : Node) : Option NearDuplicatesConfig := do
  let settings ← doc.settings? ["enabled", "phash_hamming_threshold"] node
  let base : NearDuplicatesConfig := {}
  let enabled ← doc.setting? settings "enabled" base.enabled Document.bool?
  let phashHammingThreshold ←
    doc.setting? settings "phash_hamming_threshold" base.phashHammingThreshold
      fun doc node => (Document.below? UInt32.size doc node).map UInt32.ofNat
  some { enabled, phashHammingThreshold }

/-- Reads the settings of the leakage check. -/
def leakage? (doc : Document) (node : Node) : Option LeakageConfig := do
  let settings ← doc.settings? ["enabled", "include_near_dup"] node
  let base : LeakageConfig := {}
  let enabled ← doc.setting? settings "enabled" base.enabled Document.bool?
  let includeNearDup ← doc.setting? settings "include_near_dup" base.includeNearDup Document.bool?
  some { enabled, includeNearDup }

/-- Reads the settings of all checks. -/
def checks? (doc : Document) (node : Node) : Option ChecksConfig := do
  let settings ← doc.settings? (CheckKind.all.map (·.name)) node
  let integrity ← doc.setting? settings "integrity" {} integrity?
  let classDistribution ← doc.setting? settings "class_distribution" {} classDistribution?
  let boxSanity ← doc.setting? settings "bbox_sanity" {} boxSanity?
  let duplicates ← doc.setting? settings "duplicates" {} duplicates?
  let nearDuplicates ← doc.setting? settings "near_duplicates" {} nearDuplicates?
  let leakage ← doc.setting? settings "leakage" {} leakage?
  some { integrity, classDistribution, boxSanity, duplicates, nearDuplicates, leakage }

/-- Reads a configuration. -/
def ofNode? (doc : Document) (node : Node) : Option Config := do
  let settings ← doc.settings? ["version", "fail_on", "checks"] node
  let base : Config := {}
  let version ← doc.setting? settings "version" base.version
    fun doc node => (Document.below? UInt32.size doc node).map UInt32.ofNat
  let failOn ← doc.setting? settings "fail_on" base.failOn
    fun doc node => (doc.alternative? node).bind Severity.ofName?
  let checks ← doc.setting? settings "checks" base.checks checks?
  some { version, failOn, checks }

/-- Requires a threshold to lie within zero and one. -/
def requireUnit (setting : String) (value : Float) : Except ConfigFault Unit :=
  if 0 ≤ value && value ≤ 1 then .ok () else .error (.outsideUnit setting value)

/-- Requires a condition. -/
def require (condition : Bool) (fault : ConfigFault) : Except ConfigFault Unit :=
  if condition then .ok () else .error fault

/-- Refuses versions and thresholds that no check can work with. -/
def validate (config : Config) : Except ConfigFault Unit := do
  let classes := config.checks.classDistribution
  let boxes := config.checks.boxSanity
  require (config.version == 1) (.version config.version)
  requireUnit "checks.class_distribution.max_class_share_warn" classes.maxClassShareWarn
  requireUnit "checks.class_distribution.split_drift_jsd_warn" classes.splitDriftJsdWarn
  requireUnit "checks.class_distribution.split_drift_jsd_high" classes.splitDriftJsdHigh
  require (!(classes.splitDriftJsdHigh < classes.splitDriftJsdWarn)) .driftOrder
  requireUnit "checks.bbox_sanity.min_box_area_ratio_warn" boxes.minBoxAreaRatioWarn
  requireUnit "checks.bbox_sanity.max_box_area_ratio_warn" boxes.maxBoxAreaRatioWarn
  require (!(boxes.maxBoxAreaRatioWarn ≤ boxes.minBoxAreaRatioWarn)) .areaOrder
  require (1 ≤ boxes.aspectRatioWarn) .aspectRatio
  require (config.checks.nearDuplicates.phashHammingThreshold ≤ 64) .hammingThreshold

/-- The configuration in a text. A blank text, and one without a document, has the defaults. -/
def parse (text : String) : Except ConfigFault Config :=
  if (Text.trim text).isEmpty then .ok {}
  else
    match Document.ofText? text with
    | none => .error .malformed
    | some none => .ok {}
    | some (some doc) =>
      match ofNode? doc doc.root with
      | none => .error .malformed
      | some config => (config.validate).map fun _ => config

/-- Whether a check is to run. -/
def isEnabled (config : Config) : CheckKind → Bool
  | .integrity => config.checks.integrity.enabled
  | .classDistribution => config.checks.classDistribution.enabled
  | .bboxSanity => config.checks.boxSanity.enabled
  | .duplicates => config.checks.duplicates.enabled
  | .nearDuplicates => config.checks.nearDuplicates.enabled
  | .leakage => config.checks.leakage.enabled

/-- The checks that are to run, in order. -/
def enabledChecks (config : Config) : List CheckKind :=
  CheckKind.all.filter config.isEnabled

/-- Whether any check that is to run works with perceptual hashes. -/
def wantsPerceptualHashes (config : Config) : Bool :=
  config.checks.nearDuplicates.enabled ||
    (config.checks.leakage.enabled && config.checks.leakage.includeNearDup)

end Config

end DatasetAudit
