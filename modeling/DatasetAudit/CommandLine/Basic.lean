import DatasetAudit.Artifact.Diff
import DatasetAudit.Artifact.Run
import DatasetAudit.Audit
import DatasetAudit.Calendar
import DatasetAudit.CommandLine.Arguments
import DatasetAudit.Diff.Text
import DatasetAudit.Report.Text
/-!
What a command does to a file tree, what it prints, and the code it ends with: 0 if all is well, 1
if the gate fails or there is a regression, 2 for a usage error, 3 for a path that cannot be read or
written.
-/

namespace DatasetAudit.CommandLine

/-- What the program finds where it runs: the decoder of images that it was built with, and what comes
of asking the system for a number of worker threads. -/
structure Host where
  decoder : Decoder := .header
  startWorkers : Nat → Except String Unit := fun _ => .ok ()

/-- When a command started and finished, in nanoseconds since 1970. -/
structure Clock where
  started : Nat
  finished : Nat
deriving DecidableEq, Repr

/-- The length of a run in seconds; what is less than a millisecond is dropped. -/
def Clock.durationSec (clock : Clock) : Float :=
  Float.ofInt (((clock.finished : Int) - clock.started).tdiv 1000000) / 1000

/-- The record of a run. -/
def Clock.runInfo (clock : Clock) (config : Config) : RunInfo :=
  let started := Calendar.ofNanoseconds clock.started
  RunInfo.ofConfig started.stamp started.text (Calendar.ofNanoseconds clock.finished).text
    clock.durationSec config

/-- The end of a command: the file tree as it is now, the exit code, and what is printed as output
and as a message about an error. -/
structure Ending where
  tree : FileTree
  exitCode : Nat
  output : String := ""
  message : String := ""

namespace Ending

/-- The end of a command that an error stopped. -/
def ofError (tree : FileTree) (error : AuditError) : Ending :=
  { tree, exitCode := error.exitCode, message := s!"error: {error.message}\n" }

end Ending

/-- A result in the form that is asked for. -/
def OutputFormat.render (format : OutputFormat) (json : Json) (text : String) : String :=
  match format with
  | .json => json.document
  | .text => text

namespace AuditCommand

/-- The configuration of an audit: that of the file, with what the options change. -/
def effectiveConfig (command : AuditCommand) (tree : FileTree) : Except AuditError Config := do
  let config ← match command.config with
    | some path => Config.load tree path
    | none => .ok {}
  let checks := config.checks
  let near := checks.nearDuplicates
  let nearDuplicates := { near with enabled := near.enabled || command.nearDup }
  .ok { config with
    failOn := command.failOn.getD config.failOn
    checks := { checks with nearDuplicates } }

/-- What is known from an earlier run in the same directory. -/
def cache (command : AuditCommand) (tree : FileTree) : IndexCache :=
  if command.noCache then .empty
  else IndexCache.load tree (Path.joinText command.out Artifact.indexFile)

/-- What the command audits. -/
def request (command : AuditCommand) (host : Host) (tree : FileTree) (config : Config) :
    AuditRequest where
  dataYaml := command.data
  splits := command.splits
  config := config
  options :=
    { workers := command.workers, maxImages := command.maxImages
      startWorkers := host.startWorkers }
  decoder := host.decoder
  cache := command.cache tree

/-- Runs the command. Nothing is written before the audit is finished. -/
def run (command : AuditCommand) (host : Host) (tree : FileTree) (clock : Clock) : Ending :=
  let finished := do
    let config ← command.effectiveConfig tree
    let audited ← audit tree (command.request host tree config)
    .ok (audited.index, audited.report config (clock.runInfo config))
  match finished with
  | .error error => .ofError tree error
  | .ok (index, report) =>
    match Artifact.writeRun tree command.out index report clock.finished with
    | (tree, .error error) => .ofError tree error
    | (tree, .ok _) =>
      { tree, exitCode := report.exitCode
        output := command.format.render report.summary.toJson report.summary.text }

end AuditCommand

/-- Runs the command. -/
def DiffCommand.run (command : DiffCommand) (tree : FileTree) : Ending :=
  let compared := do
    let old ← Artifact.readFlags tree command.old
    let new ← Artifact.readFlags tree command.new
    .ok (Diff.compute old.findings new.findings command.threshold)
  match compared with
  | .error error => .ofError tree error
  | .ok diff =>
    { tree, exitCode := if diff.regression then 1 else 0
      output := command.format.render diff.toJson diff.text }

/-- Runs the command. -/
def ExplainCommand.run (command : ExplainCommand) (tree : FileTree) : Ending :=
  let explained := do
    let summary ← Artifact.readSummary tree command.directory
    let flags ← Artifact.readFlags tree command.directory
    .ok (explain summary flags command.top)
  match explained with
  | .error error => .ofError tree error
  | .ok output => { tree, exitCode := 0, output }

/-- Runs a command. -/
def Command.run (command : Command) (host : Host) (tree : FileTree) (clock : Clock) : Ending :=
  match command with
  | .audit command => command.run host tree clock
  | .diff command => command.run tree
  | .explain command => command.run tree

/-- How the program is used. -/
def usage : String :=
  Text.ofLines
    ["Usage: dqa <COMMAND>",
      "",
      "Commands:",
      "  audit    --data <PATH> --out <DIR> [--config <PATH>] [--splits <SPLITS>]",
      "           [--workers <N>] [--max-images <N>] [--near-dup] [--fail-on <SEVERITY>]",
      "           [--no-cache] [--format <json|text>]",
      "  diff     --old <RUN> --new <RUN> [--fail-on-regression <SEVERITY>]",
      "           [--format <json|text>]",
      "  explain  --run <DIR> [--top <N>]"]

/-- The end of a program that was given no command. -/
def NoCommand.ending (noCommand : NoCommand) (tree : FileTree) : Ending :=
  match noCommand with
  | .help => { tree, exitCode := 0, output := usage }
  | .version => { tree, exitCode := 0, output := s!"{toolName} {toolVersion}\n" }
  | .refused => { tree, exitCode := 2, message := usage }

/-- Runs the program with arguments. -/
def run (host : Host) (tree : FileTree) (clock : Clock) (arguments : List String) : Ending :=
  match Command.parse arguments with
  | .ok command => command.run host tree clock
  | .error noCommand => noCommand.ending tree

end DatasetAudit.CommandLine
