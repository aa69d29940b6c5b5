import DatasetAudit.Proofs.Artifact.Reading
import DatasetAudit.Proofs.Artifact.Report
import DatasetAudit.Proofs.CommandLine.Arguments
import DatasetAudit.Proofs.CommandLine.Rerun
import DatasetAudit.Proofs.CommandLine.Stages
import DatasetAudit.Proofs.Decimal.Finite

/-! What an audit leaves behind. A stage that fails stops it before anything is written. Otherwise its
files can be read back by the next command, and the exit code is what the findings in them decide. -/

namespace DatasetAudit

variable {tree later : FileTree} {directory : String} {place : Location} {index : Index}
  {report : Report}

theorem FileTree.Leads.isDirectory_eq_true (h : Leads tree directory place) (hName : directory ≠ "") :
    tree.isDirectory directory = true := by
  refine Scan.isDirectory_eq_true_iff.mpr ⟨place, find_eq_ok_iff.mpr ⟨?_, h.node⟩⟩
  exact locate_of_follow (by simpa using hName) h.noNul h.follow fun _ => h.node

namespace Artifact

theorem read_eq_ok {α : Type} {parse? : String → Option α} {path text : String} {value : α}
    (hFile : tree.read path = .ok (Utf8.encode text)) (hParse : parse? text = some value) :
    Artifact.read tree parse? path = .ok value := by
  rw [Artifact.read, FileTree.readText_eq_ok hFile]
  simp only [hParse]

theorem Written.readFlags_eq (h : Written tree later directory place index report)
    (hName : directory ≠ "") (hFlags : report.flags.Writable) :
    readFlags later directory = .ok report.flags := by
  rw [readFlags, if_pos (h.leads.isDirectory_eq_true hName)]
  exact read_eq_ok h.read_files.2.1 (Flags.restores hFlags).parse?_bind

theorem Written.readSummary_eq (h : Written tree later directory place index report)
    (hSummary : report.summary.Writable) : readSummary later directory = .ok report.summary :=
  read_eq_ok h.read_files.2.2 (Summary.restores hSummary).parse?_bind

end Artifact

theorem AuditRun.agrees_report {request : AuditRequest} {run : AuditRun}
    (hRun : audit tree request = .ok run) (config : Config) (info : RunInfo) :
    (run.report config info).Agrees config run.outcomes := by
  apply Report.agrees_ofOutcomes
  rw [(exists_build_of_audit hRun).1, Report.map_kind_runChecks]
  exact CheckKind.all_nodup

namespace CommandLine

/-- A run has left its files in a directory, and what can be read from them agrees: the exit code and
the result in the summary are decided by the severities of the findings, and the summary has their
number, in all and of each severity. -/
structure Ending.Delivers (ending : Ending) (directory : String) (threshold : Severity)
    (flags : Flags) (summary : Summary) : Prop where
  files : ∀ name ∈ Artifact.names,
    ∃ bytes, ending.tree.read (Path.joinText directory name) = .ok bytes
  readFlags : Artifact.readFlags ending.tree directory = .ok flags
  readSummary : Artifact.readSummary ending.tree directory = .ok summary
  exit_iff : ending.exitCode = 1 ↔ ∃ f ∈ flags.findings, threshold ≤ f.severity
  failed_iff : summary.totals.buildFailed = true ↔ ∃ f ∈ flags.findings, threshold ≤ f.severity
  length : summary.totals.findings = flags.findings.length
  bySeverity : ∀ severity,
    summary.totals.bySeverity.get severity = flags.findings.countP fun f => f.severity = severity

/-- Whether the milliseconds that a command takes fit into sixty-four bits. -/
def Clock.Fits (clock : Clock) : Prop :=
  (((clock.finished : Int) - clock.started).tdiv 1000000).natAbs < UInt64.size

theorem Clock.Fits.isFinite_durationSec {clock : Clock} (h : clock.Fits) :
    clock.durationSec.isFinite = true :=
  Binary64.isFinite_ofInt_div_thousand h

namespace AuditCommand

variable {command : AuditCommand} {host : Host} {clock : Clock} {config : Config} {audited : AuditRun}
  {last : FileTree}

theorem Finished.delivers (h : command.Finished host tree clock config audited last)
    (hOut : command.out ≠ "") (hClock : clock.Fits) (hFits : audited.Fits) :
    ∃ flags summary,
      (command.run host tree clock).Delivers command.out config.failOn flags summary := by
  obtain ⟨hTree, hCode⟩ := h.run_eq
  obtain ⟨paths, hFiles⟩ := h.files
  obtain ⟨place, hWritten⟩ := Artifact.exists_written_of_writeRun hFiles
  have hAgrees := AuditRun.agrees_report h.result config (clock.runInfo config)
  have hGate : (audited.report config (clock.runInfo config)).summary.totals.buildFailed = true ↔
      ∃ f ∈ (audited.report config (clock.runInfo config)).flags.findings,
        config.failOn ≤ f.severity := by
    rw [hAgrees.failed, gate, List.any_eq_true]
    simp only [decide_eq_true_eq]
  refine ⟨_, _, ?_, ?_, ?_, ?_, hGate, hAgrees.length, fun severity => ?_⟩
  · intro name hName
    obtain ⟨file, hFile, rfl⟩ := List.mem_map.mp (Artifact.contents_names audited.index
      (audited.report config (clock.runInfo config)) ▸ hName)
    rw [hTree]
    exact ⟨_, hWritten.read file hFile⟩
  · rw [hTree]
    exact hWritten.readFlags_eq hOut (AuditRun.flags_writable h.result hFits)
  · rw [hTree]
    exact hWritten.readSummary_eq
      (AuditRun.summary_writable h.result hFits hClock.isFinite_durationSec)
  · rw [hCode, hAgrees.exit_iff]
    exact hGate
  · exact SeverityCounts.get_ofFindings _ severity

/-- Whether what the command counts fits into sixty-four bits. -/
def Fits (command : AuditCommand) (host : Host) (tree : FileTree) : Prop :=
  ∀ config audited, command.effectiveConfig tree = .ok config →
    audit tree (command.request host tree config) = .ok audited → audited.Fits

/-- The severity that fails a run is that of the options, or else that of the configuration. -/
theorem Finished.exists_given (h : command.Finished host tree clock config audited last) :
    ∃ given, command.givenConfig tree = .ok given ∧
      config.failOn = command.failOn.getD given.failOn := by
  have hSettings := h.settings
  rw [effectiveConfig_eq_map] at hSettings
  obtain ⟨given, hGiven, rfl⟩ := Except.exists_of_map hSettings
  exact ⟨given, hGiven, rfl⟩

end AuditCommand

/-- However an audit is asked for and whatever the host grants: if a stage fails, nothing in the file
tree changes, and if the run ends with 0 or 1, its files are there and say what the exit code says. -/
theorem run_delivers (host : Host) (tree : FileTree) (clock : Clock) (arguments : List String)
    (command : AuditCommand) (hParse : Command.parse arguments = .ok (.audit command)) :
    (∀ error, command.Fails host tree error → (run host tree clock arguments).Stopped tree error) ∧
    (clock.Fits → command.Fits host tree →
      (run host tree clock arguments).exitCode = 0 ∨ (run host tree clock arguments).exitCode = 1 →
      ∃ given flags summary, command.givenConfig tree = .ok given ∧
        (run host tree clock arguments).Delivers command.out (command.failOn.getD given.failOn) flags
          summary) := by
  have hRun : run host tree clock arguments = command.run host tree clock := by
    rw [run, hParse]
    rfl
  rw [hRun]
  refine ⟨fun error hFails => hFails.stopped, fun hClock hFits hExit => ?_⟩
  obtain ⟨config, audited, hFinished⟩ := AuditCommand.exists_finished hExit
  obtain ⟨given, hGiven, hThreshold⟩ := hFinished.exists_given
  obtain ⟨flags, summary, hDelivers⟩ := hFinished.delivers (AuditCommand.out_ne_of_parse hParse)
    hClock (hFits config audited hFinished.settings hFinished.result)
  exact ⟨given, flags, summary, hGiven, hThreshold ▸ hDelivers⟩

namespace AuditCommand

/-- The arguments that ask for the audit of `/d/data.yaml`. -/
def plainArguments : List String :=
  ["audit", "--data", "/d/data.yaml", "--out", "/d/out"]

/-- The dataset after its images were moved away; the directory of an earlier run is still there. -/
def vacated : FileTree :=
  ((({} : FileTree).put ["d"] .directory).put ["d", "data.yaml"]
    (.file (Utf8.encode "names: [a]\ntrain: images\n") 1)).put ["d", "out"] .directory

theorem plain_fits : plain.Fits {} unbounded := by
  have hFits : ∀ audited ∈ (audit unbounded (plain.request {} unbounded {})).toOption,
      audited.Fits := by
    decide +kernel
  intro config audited hConfig hAudited
  have hStandard : plain.effectiveConfig unbounded = .ok {} := rfl
  obtain rfl := Except.ok.inj (hStandard.symm.trans hConfig)
  apply hFits
  rw [hAudited]
  rfl

theorem exists_fails_plain : ∃ path cause, plain.Fails {} vacated (.dataAccess path cause) := by
  have hLoad : (Layout.load vacated "/d/data.yaml" []).toOption.isSome = true := by
    decide +kernel
  have hScan : ((Layout.load vacated "/d/data.yaml" []).bind (scan vacated)).toOption.isNone := by
    decide +kernel
  obtain ⟨layout, hLayout⟩ := Except.exists_of_isSome_toOption hLoad
  rw [hLayout] at hScan
  cases hSource : scan vacated layout with
  | error error =>
      obtain ⟨path, cause, rfl⟩ := dataAccess_of_scan hSource
      exact ⟨path, cause, .audit rfl (.scan rfl hLayout hSource)⟩
  | ok source =>
      change (scan vacated layout).toOption.isNone at hScan
      rw [hSource] at hScan
      cases hScan

/-- A host that grants no threads. -/
def cramped : Host where
  startWorkers _ := .error "Resource temporarily unavailable (os error 11)"

theorem exists_fails_cramped :
    ∃ reason, plain.Fails cramped unbounded (.usage (.workers reason)) := by
  obtain ⟨_, _, hFinished⟩ := exists_finished_plain
  exact ⟨_, .audit hFinished.settings
    (AuditRequest.fails_of_startWorkers hFinished.result cramped.startWorkers rfl)⟩

end AuditCommand

open AuditCommand (cramped plain plainArguments unbounded vacated)

theorem plain_delivers : Command.parse plainArguments = .ok (.audit plain) ∧
    (∃ path cause, plain.Fails {} vacated (.dataAccess path cause) ∧
      (run {} vacated ⟨0, 1⟩ plainArguments).Stopped vacated (.dataAccess path cause)) ∧
    (∃ reason, plain.Fails cramped unbounded (.usage (.workers reason)) ∧
      (run cramped unbounded ⟨0, 1⟩ plainArguments).Stopped unbounded
        (.usage (.workers reason))) ∧
    Clock.Fits ⟨0, 1⟩ ∧ plain.Fits {} unbounded ∧
    ((run {} unbounded ⟨0, 1⟩ plainArguments).exitCode = 0 ∨
      (run {} unbounded ⟨0, 1⟩ plainArguments).exitCode = 1) ∧
    ∃ flags summary,
      (run {} unbounded ⟨0, 1⟩ plainArguments).Delivers "/d/out" .high flags summary := by
  have hParse : Command.parse plainArguments = .ok (.audit plain) := rfl
  have hClock : Clock.Fits ⟨0, 1⟩ := by
    unfold Clock.Fits
    decide
  have hFits := AuditCommand.plain_fits
  obtain ⟨path, cause, hFails⟩ := AuditCommand.exists_fails_plain
  obtain ⟨reason, hCramped⟩ := AuditCommand.exists_fails_cramped
  obtain ⟨_, _, hFinished⟩ := AuditCommand.exists_finished_plain
  obtain ⟨hRefused, -⟩ := run_delivers cramped unbounded ⟨0, 1⟩ plainArguments plain hParse
  obtain ⟨hStopped, -⟩ := run_delivers {} vacated ⟨0, 1⟩ plainArguments plain hParse
  obtain ⟨-, hDelivers⟩ := run_delivers {} unbounded ⟨0, 1⟩ plainArguments plain hParse
  obtain ⟨given, flags, summary, hGiven, hFlags⟩ := hDelivers hClock hFits hFinished.exitCode
  cases hGiven
  exact ⟨hParse, ⟨path, cause, hFails, hStopped _ hFails⟩,
    ⟨reason, hCramped, hRefused _ hCramped⟩, hClock, hFits, hFinished.exitCode, flags, summary, hFlags⟩

end CommandLine

end DatasetAudit
