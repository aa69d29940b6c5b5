import DatasetAudit.Artifact.Index
import DatasetAudit.Check.Outcome
import DatasetAudit.Index.Build
import DatasetAudit.Report.Basic
/-!
An audit from start to end: the description of the dataset is read, the dataset is walked and
indexed, and every check has its outcome.
-/

namespace DatasetAudit

/-- The configuration in a file. -/
def Config.load (tree : FileTree) (path : String) : Except AuditError Config :=
  match tree.readText path with
  | .error error => .error (.usage (.unreadableConfig path error))
  | .ok text => (Config.parse text).mapError fun fault => .usage (.config fault)

/-- The layout that a file describes. Its own path counts as the file tree has it. -/
def Layout.load (tree : FileTree) (path : String) (requested : List Split) :
    Except AuditError Layout :=
  let unreadable (error : FileError) : AuditError := .usage (.unreadableLayout path error)
  match tree.canonical path with
  | .error error => .error (unreadable error)
  | .ok dataYaml =>
    match tree.readText dataYaml with
    | .error error => .error (unreadable error)
    | .ok text =>
      (Layout.parse dataYaml text requested).mapError fun fault => .usage (.layout fault)

/-- What the index in a file knows. Without such a file, or with one that holds no index, nothing
is known. -/
def IndexCache.load (tree : FileTree) (path : String) : IndexCache :=
  match (tree.readText path).toOption.bind Index.parse? with
  | some index => .ofIndex index
  | none => .empty

/-- What is to be audited, and how. Without requested splits all are audited. -/
structure AuditRequest where
  dataYaml : String
  splits : List Split := []
  config : Config
  options : IndexOptions := {}
  decoder : Decoder := .header
  cache : IndexCache := .empty

/-- The index of an audited dataset and the outcomes of the checks. -/
structure AuditRun where
  index : Index
  outcomes : List CheckOutcome

namespace AuditRun

/-- The report of a finished audit. -/
def report (run : AuditRun) (config : Config) (info : RunInfo) : Report :=
  Report.ofOutcomes run.index config run.outcomes info

end AuditRun

/-- Audits a dataset. -/
def audit (tree : FileTree) (request : AuditRequest) : Except AuditError AuditRun := do
  request.config.validate.mapError fun fault => AuditError.usage (.config fault)
  let layout ← Layout.load tree request.dataYaml request.splits
  let source ← scan tree layout
  let index ←
    Index.build tree.view source request.config request.options request.decoder request.cache
  .ok { index, outcomes := runChecks index request.config }

end DatasetAudit
