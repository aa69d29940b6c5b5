import DatasetAudit.CommandLine.Basic
/-!
The files that a command knows by name. Files of the dataset are not among them: a command learns
of those from the file tree.
-/

namespace DatasetAudit.CommandLine

/-- The description of the dataset, the configuration, and the index of an earlier run. The
directory of the run is named too, since a file may stand in its place. -/
def AuditCommand.namedFiles (command : AuditCommand) : List String :=
  command.data :: command.config.toList ++
    [command.out, Path.joinText command.out Artifact.indexFile]

/-- The findings of both runs, which are named by the file or by its directory. -/
def DiffCommand.namedFiles (command : DiffCommand) : List String :=
  [command.old, command.new].flatMap fun path =>
    [path, Path.joinText path Artifact.flagsFile]

/-- The summary and the findings of the run. -/
def ExplainCommand.namedFiles (command : ExplainCommand) : List String :=
  [Artifact.summaryFile, Artifact.flagsFile].map (Path.joinText command.directory)

/-- The files that a command names. -/
def Command.namedFiles : Command → List String
  | .audit command => command.namedFiles
  | .diff command => command.namedFiles
  | .explain command => command.namedFiles

/-- Whether a command walks a dataset. -/
def Command.walks : Command → Bool
  | .audit _ => true
  | .diff _ | .explain _ => false

end DatasetAudit.CommandLine
