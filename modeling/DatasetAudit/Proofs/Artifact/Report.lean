import DatasetAudit.Audit
import DatasetAudit.Proofs.Artifact.Summary
import DatasetAudit.Proofs.Check.Figures
import DatasetAudit.Proofs.Except
import DatasetAudit.Proofs.Index.Order
import DatasetAudit.Proofs.Report.Agreement

/-! The report of an audit can be written and read back, whatever the dataset holds, as long as what
it counts fits into sixty-four bits and the run lasted for a finite time. -/

namespace DatasetAudit

variable {tree : FileTree} {request : AuditRequest} {run : AuditRun} {config : Config}
  {info : RunInfo}

/-- Whether everything that a run counts fits into sixty-four bits, as its files can hold no more. -/
structure AuditRun.Fits (run : AuditRun) : Prop where
  index : run.index.Fits
  findings : (run.outcomes.flatMap (·.findings)).length < UInt64.size

instance (run : AuditRun) : Decidable run.Fits :=
  decidable_of_iff
    (run.index.Fits ∧ (run.outcomes.flatMap (·.findings)).length < UInt64.size)
    ⟨fun h => ⟨h.1, h.2⟩, fun h => ⟨h.index, h.findings⟩⟩

theorem exists_build_of_audit (h : audit tree request = .ok run) :
    run.outcomes = runChecks run.index request.config ∧
      ∃ source, Index.build tree.view source request.config request.options request.decoder
        request.cache = .ok run.index := by
  obtain ⟨_, _, h⟩ := Except.exists_of_bind h
  obtain ⟨layout, _, h⟩ := Except.exists_of_bind h
  obtain ⟨source, _, h⟩ := Except.exists_of_bind h
  obtain ⟨index, hIndex, h⟩ := Except.exists_of_bind h
  obtain rfl := Except.ok.inj h
  exact ⟨rfl, source, hIndex⟩

theorem Index.imageCount_le_of_build {files : FileView} {source : Source} {options : IndexOptions}
    {decoder : Decoder} {cache : IndexCache} {index : Index}
    (h : build files source config options decoder cache = .ok index) :
    ∀ info ∈ index.splits, info.imageCount ≤ index.entries.length := by
  intro info hInfo
  rw [splits_of_build h, mem_sortByKey] at hInfo
  obtain ⟨split, _, rfl⟩ := List.mem_map.mp hInfo
  exact List.countP_le_length

theorem Report.mem_of_findLast? {α : Type} {condition : α → Bool} {items : List α} {item : α}
    (h : findLast? condition items = some item) : item ∈ items :=
  List.mem_reverse.mp (List.mem_of_find?_eq_some h)

/-- No split has more images than the index has entries. -/
theorem Report.datasetInfo_fits {index : Index} (hFits : index.Fits)
    (hSplits : ∀ info ∈ index.splits, info.imageCount ≤ index.entries.length) :
    (datasetInfo index).Fits where
  splits split counts h := by
    obtain ⟨info, hInfo, rfl⟩ := Option.map_eq_some_iff.mp h
    have hImages := hSplits info (mem_of_findLast? hInfo)
    have hLabeled : ((index.entriesIn info.split).countP fun entry => !entry.labels.isMissing) ≤
        index.entries.length :=
      List.countP_le_length.trans (List.length_filter_le _ _)
    refine ⟨?_, ?_, ?_⟩
    · exact hImages.trans_lt hFits.entries
    · exact hLabeled.trans_lt hFits.entries
    · exact ((Nat.sub_le _ _).trans hImages).trans_lt hFits.entries
  classes := hFits.classes

theorem SeverityCounts.fits_ofFindings {findings : List Finding}
    (h : findings.length < UInt64.size) : (ofFindings findings).Fits := by
  intro severity
  rw [get_ofFindings]
  exact List.countP_le_length.trans_lt h

theorem AuditRun.flags_writable (hRun : audit tree request = .ok run) (hFits : run.Fits) :
    (run.report config info).flags.Writable := by
  obtain ⟨hOutcomes, _⟩ := exists_build_of_audit hRun
  have hFigures := hasFigures_of_mem_runChecks request.config hFits.index
  rw [← hOutcomes] at hFigures
  intro finding hFinding
  exact hFigures finding ((List.mergeSort_perm _ _).mem_iff.mp hFinding)

theorem AuditRun.summary_writable (hRun : audit tree request = .ok run) (hFits : run.Fits)
    (hDuration : info.durationSec.isFinite = true) :
    (run.report config info).summary.Writable where
  duration := hDuration
  dataset := by
    obtain ⟨_, source, hIndex⟩ := exists_build_of_audit hRun
    exact Report.datasetInfo_fits hFits.index (Index.imageCount_le_of_build hIndex)
  checks kind check h := by
    obtain ⟨outcome, hOutcome, rfl⟩ := Option.map_eq_some_iff.mp h
    have hPart : outcome.findings.length ≤ (run.outcomes.flatMap (·.findings)).length := by
      rw [List.flatMap_def]
      have hMem := List.mem_map_of_mem (f := (·.findings)) (Report.mem_of_findLast? hOutcome)
      exact (List.sublist_flatten_of_mem hMem).length_le
    exact SeverityCounts.fits_ofFindings (hPart.trans_lt hFits.findings)
  totals := by
    have hLength : (Finding.sort (run.outcomes.flatMap (·.findings))).length < UInt64.size := by
      rw [Finding.sort, List.length_mergeSort]
      exact hFits.findings
    exact ⟨hLength, SeverityCounts.fits_ofFindings hLength⟩

end DatasetAudit
