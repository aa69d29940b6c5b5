import DatasetAudit.Decimal.Text
import DatasetAudit.Split
/-!
Why an audit cannot go on. Only two things stop a run: something the user gave is no good, or a
path of the dataset cannot be read; beyond that, a result cannot be written. Whatever is wrong
with a single image or label becomes a finding instead.
-/

namespace DatasetAudit

/-- Why a file or a directory cannot be used. What the system says beyond the first few is left in its
own words. -/
inductive FileError where
  | notFound
  | notDirectory
  | isDirectory
  | alreadyThere
  | nameTooLong
  | nulInName
  | notText
  | noSuchDirectory
  | system (wording : String)
  | walk (path : String) (error : FileError)
deriving DecidableEq, Repr

/-- The wording of a file error. A walk over directories says where it was stopped. -/
def FileError.message : FileError → String
  | .notFound => "No such file or directory (os error 2)"
  | .notDirectory => "Not a directory (os error 20)"
  | .isDirectory => "Is a directory (os error 21)"
  | .alreadyThere => "File exists (os error 17)"
  | .nameTooLong => "File name too long (os error 36)"
  | .nulInName => "file name contained an unexpected NUL byte"
  | .notText => "stream did not contain valid UTF-8"
  | .noSuchDirectory => "directory does not exist"
  | .system wording => wording
  | .walk path error => s!"IO error for operation on {path}: {error.message}"

/-- Why a dataset description is no good. -/
inductive LayoutFault where
  | malformed
  | empty
  | notMapping
  | path
  | nameEntries
  | nameKeys
  | nameValues
  | names
  | split (split : Split)
  | noSplits
deriving DecidableEq, Repr

/-- The wording of a fault in a dataset description. -/
def LayoutFault.message : LayoutFault → String
  | .malformed => "invalid data.yaml"
  | .empty => "data.yaml is empty"
  | .notMapping => "data.yaml must be a mapping"
  | .path => "data.yaml path must be a string"
  | .nameEntries => "data.yaml names entries must be strings"
  | .nameKeys => "data.yaml names keys must be numeric"
  | .nameValues => "data.yaml names values must be strings"
  | .names => "data.yaml names must be a list or mapping"
  | .split part => s!"data.yaml {part.name} must be a directory path string"
  | .noSplits => "no valid splits were resolved from data.yaml"

/-- Why a configuration is no good. -/
inductive ConfigFault where
  | malformed
  | version (version : UInt32)
  | outsideUnit (setting : String) (value : Float)
  | driftOrder
  | areaOrder
  | aspectRatio
  | hammingThreshold

/-- The wording of a fault in a configuration. -/
def ConfigFault.message : ConfigFault → String
  | .malformed => "invalid config"
  | .version number => s!"unsupported config version {number.toNat}"
  | .outsideUnit setting value =>
    s!"{setting} must be within [0, 1], got {Decimal.plainText value}"
  | .driftOrder =>
    "checks.class_distribution.split_drift_jsd_warn must not exceed split_drift_jsd_high"
  | .areaOrder =>
    "checks.bbox_sanity.min_box_area_ratio_warn must be below max_box_area_ratio_warn"
  | .aspectRatio => "checks.bbox_sanity.aspect_ratio_warn must be at least 1.0"
  | .hammingThreshold =>
    "checks.near_duplicates.phash_hamming_threshold must be within [0, 64]"

/-- What the user gave that is no good. -/
inductive UsageFault where
  | config (fault : ConfigFault)
  | unreadableConfig (path : String) (error : FileError)
  | layout (fault : LayoutFault)
  | unreadableLayout (path : String) (error : FileError)
  | unreadableArtifact (path : String) (error : FileError)
  | malformedArtifact (path : String)
  | workers (reason : String)

/-- The wording of a usage fault. -/
def UsageFault.message : UsageFault → String
  | .config fault => fault.message
  | .unreadableConfig path error => s!"cannot read config {path}: {error.message}"
  | .layout fault => fault.message
  | .unreadableLayout path error => s!"cannot read data.yaml {path}: {error.message}"
  | .unreadableArtifact path error => s!"cannot read {path}: {error.message}"
  | .malformedArtifact path => s!"invalid {path}"
  | .workers reason => s!"cannot start worker pool: {reason}"

/-- Why an audit cannot go on. -/
inductive AuditError where
  | usage (fault : UsageFault)
  | dataAccess (path : String) (error : FileError)
  | artifact (path : String) (error : FileError)

namespace AuditError

/-- The wording of an error. -/
def message : AuditError → String
  | .usage fault => s!"usage error: {fault.message}"
  | .dataAccess path error => s!"cannot read {path}: {error.message}"
  | .artifact path error => s!"cannot write artifact {path}: {error.message}"

/-- The exit code of a program that ends with an error. -/
def exitCode : AuditError → Nat
  | .usage _ => 2
  | .dataAccess _ _ => 3
  | .artifact _ _ => 3

end AuditError

end DatasetAudit
