import DatasetAudit.Artifact.Index
import DatasetAudit.Artifact.Summary
import DatasetAudit.FileTree.Change
import DatasetAudit.Json.Printer
import DatasetAudit.Report.Basic
/-!
The files that a run leaves in its directory, and reading those of an earlier run.
-/

namespace DatasetAudit

namespace Artifact

/-- The name of the file that holds the index. -/
def indexFile : String := "index.json"

/-- The name of the file that holds the findings. -/
def flagsFile : String := "flags.json"

/-- The name of the file that holds the summary. -/
def summaryFile : String := "summary.json"

/-- The files of a run in a directory, by path, in the order in which they are written. -/
def documents (directory : String) (index : Index) (report : Report) : List (String × String) :=
  [(Path.joinText directory indexFile, index.toJson.document),
    (Path.joinText directory flagsFile, report.flags.toJson.document),
    (Path.joinText directory summaryFile, report.summary.toJson.document)]

/-- Writes files one after the other, up to the first that cannot be written in full. -/
def writeAll (tree : FileTree) (mtimeNs : Int) :
    List (String × String) → FileTree × Except AuditError Unit
  | [] => (tree, .ok ())
  | (path, text) :: rest =>
    match tree.write path (Utf8.encode text) mtimeNs with
    | (tree, .ok ()) => writeAll tree mtimeNs rest
    | (tree, .error error) => (tree, .error (.artifact path error))

/-- Writes the files of a run, and gives their paths. -/
def writeRun (tree : FileTree) (directory : String) (index : Index) (report : Report)
    (mtimeNs : Int) : FileTree × Except AuditError (List String) :=
  match tree.createDirectories directory with
  | (tree, .error error) => (tree, .error (.artifact directory error))
  | (tree, .ok ()) =>
    let documents := documents directory index report
    let (tree, result) := writeAll tree mtimeNs documents
    (tree, result.map fun _ => documents.map (·.1))

/-- What a file of an earlier run holds. -/
def read {α : Type} (tree : FileTree) (parse? : String → Option α) (path : String) :
    Except AuditError α :=
  match tree.readText path with
  | .error error => .error (.usage (.unreadableArtifact path error))
  | .ok text =>
    match parse? text with
    | some value => .ok value
    | none => .error (.usage (.malformedArtifact path))

/-- The findings of an earlier run, by its directory or by the file itself. -/
def readFlags (tree : FileTree) (path : String) : Except AuditError Flags :=
  read tree Flags.parse?
    (if tree.isDirectory path then Path.joinText path flagsFile else path)

/-- The summary of an earlier run, by its directory. -/
def readSummary (tree : FileTree) (directory : String) : Except AuditError Summary :=
  read tree Summary.parse? (Path.joinText directory summaryFile)

end Artifact

end DatasetAudit
