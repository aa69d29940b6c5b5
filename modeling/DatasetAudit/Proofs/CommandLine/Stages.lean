import DatasetAudit.CommandLine.Basic
import DatasetAudit.Proofs.Index.Build
import DatasetAudit.Proofs.Scan.Files
import DatasetAudit.Proofs.Scan.Layout

/-! The stages of an audit before its checks, and how they fail. The configuration and the description
of the dataset are what the user gave, so their errors are usage errors; the walk over the dataset and
its index fail at a path that cannot be read, or at the number of threads that the user asked for. A
command that a stage stops has changed nothing. -/

namespace DatasetAudit

section Stages

variable {tree : FileTree} {path : String} {error : AuditError}

theorem Config.usage_of_load (h : load tree path = .error error) :
    ∃ fault, error = .usage fault := by
  unfold load at h
  split at h
  · exact ⟨_, (Except.error.inj h).symm⟩
  · obtain ⟨fault, _, rfl⟩ := Except.mapError_eq_error_iff.mp h
    exact ⟨_, rfl⟩

theorem Scan.dataAccess_of_listFiles {directory : Path} {extensions : List String}
    (h : listFiles tree directory extensions = .error error) :
    ∃ path cause, error = .dataAccess path cause := by
  unfold listFiles at h
  split at h
  · split at h
    · cases h
    · exact ⟨_, _, (Except.error.inj h).symm⟩
  · exact ⟨_, _, (Except.error.inj h).symm⟩

theorem Scan.dataAccess_of_split {root : Path} {layout : SplitLayout}
    (h : Scan.split tree root layout = .error error) :
    ∃ path cause, error = .dataAccess path cause := by
  obtain hImages | ⟨images, _, h⟩ := Except.bind_eq_error_iff.mp h
  · exact dataAccess_of_listFiles hImages
  · obtain hLabels | ⟨labels, _, h⟩ := Except.bind_eq_error_iff.mp h
    · unfold listLabels at hLabels
      split at hLabels
      · exact dataAccess_of_listFiles hLabels
      · cases hLabels
    · cases h

theorem dataAccess_of_scan {layout : Layout} (h : scan tree layout = .error error) :
    ∃ path cause, error = .dataAccess path cause := by
  unfold scan at h
  split at h
  · exact ⟨_, _, (Except.error.inj h).symm⟩
  · obtain hSplits | ⟨_, _, h⟩ := Except.bind_eq_error_iff.mp h
    · obtain ⟨layout, _, hSplit⟩ := Scan.exists_of_mapM_eq_error hSplits
      exact Scan.dataAccess_of_split hSplit
    · cases h

/-- An index fails at the threads for it or at the root of the dataset. -/
theorem Index.kind_of_build {files : FileView} {source : Source} {config : Config}
    {options : IndexOptions} {decoder : Decoder} {cache : IndexCache}
    (h : build files source config options decoder cache = .error error) :
    (∃ reason, error = .usage (.workers reason)) ∨ ∃ path cause, error = .dataAccess path cause := by
  unfold build at h
  split at h
  · exact .inr ⟨_, _, (Except.error.inj h).symm⟩
  · split at h
    · exact .inl ⟨_, (Except.error.inj h).symm⟩
    · cases h

/-- A stage of an audit fails with an error. -/
inductive AuditRequest.Fails (request : AuditRequest) (tree : FileTree) : AuditError → Prop where
  | settings {fault : ConfigFault} (h : request.config.validate = .error fault) :
      request.Fails tree (.usage (.config fault))
  | layout {error : AuditError} (hSettings : request.config.validate = .ok ())
      (h : Layout.load tree request.dataYaml request.splits = .error error) :
      request.Fails tree error
  | scan {error : AuditError} {layout : Layout} (hSettings : request.config.validate = .ok ())
      (hLayout : Layout.load tree request.dataYaml request.splits = .ok layout)
      (h : scan tree layout = .error error) : request.Fails tree error
  | index {error : AuditError} {layout : Layout} {source : Source}
      (hSettings : request.config.validate = .ok ())
      (hLayout : Layout.load tree request.dataYaml request.splits = .ok layout)
      (hSource : scan tree layout = .ok source)
      (h : Index.build tree.view source request.config request.options request.decoder
        request.cache = .error error) : request.Fails tree error

/-- Nothing but its stages stops an audit. -/
theorem AuditRequest.fails_iff {request : AuditRequest} :
    request.Fails tree error ↔ audit tree request = .error error := by
  unfold audit
  simp only [bind, Except.bind_eq_error_iff, Except.mapError_eq_error_iff,
    Except.mapError_eq_ok_iff]
  constructor
  · rintro (h | ⟨hSettings, h⟩ | ⟨hSettings, hLayout, h⟩ | ⟨hSettings, hLayout, hSource, h⟩)
    · exact .inl ⟨_, h, rfl⟩
    · exact .inr ⟨(), hSettings, .inl h⟩
    · exact .inr ⟨(), hSettings, .inr ⟨_, hLayout, .inl h⟩⟩
    · exact .inr ⟨(), hSettings, .inr ⟨_, hLayout, .inr ⟨_, hSource, .inl h⟩⟩⟩
  · rintro (⟨fault, h, rfl⟩ | ⟨_, hSettings, h | ⟨layout, hLayout, h | ⟨source, hSource,
      h | ⟨_, _, h⟩⟩⟩⟩)
    · exact .settings h
    · exact .layout hSettings h
    · exact .scan hSettings hLayout h
    · exact .index hSettings hLayout hSource h
    · cases h

/-- The description and the number of threads are the user's fault, and the dataset is not. -/
theorem AuditRequest.Fails.kind {request : AuditRequest} (h : request.Fails tree error) :
    (∃ fault, error = .usage fault) ∨ ∃ path cause, error = .dataAccess path cause := by
  cases h with
  | settings _ => exact .inl ⟨_, rfl⟩
  | layout _ h => exact .inl (Layout.usage_of_load h)
  | scan _ _ h => exact .inr (dataAccess_of_scan h)
  | index _ _ _ h =>
      obtain ⟨_, rfl⟩ | hAccess := Index.kind_of_build h
      · exact .inl ⟨_, rfl⟩
      · exact .inr hAccess

/-- An audit that comes to a result does not where no threads are granted. -/
theorem AuditRequest.fails_of_startWorkers {request : AuditRequest} {run : AuditRun}
    (h : audit tree request = .ok run) (startWorkers : Nat → Except String Unit) {reason : String}
    (hRefused : startWorkers request.options.workers = .error reason) :
    AuditRequest.Fails { request with options := { request.options with startWorkers } } tree
      (.usage (.workers reason)) := by
  obtain ⟨_, hSettings, h⟩ := Except.exists_of_bind h
  obtain ⟨layout, hLayout, h⟩ := Except.exists_of_bind h
  obtain ⟨source, hSource, h⟩ := Except.exists_of_bind h
  obtain ⟨index, hIndex, -⟩ := Except.exists_of_bind h
  obtain ⟨⟨stat, hStat⟩, -⟩ := Index.build_eq_ok_iff.mp hIndex
  refine .index (Except.mapError_eq_ok_iff.mp hSettings) hLayout hSource ?_
  simp only [Index.build, hStat, hRefused]

end Stages

namespace CommandLine

/-- The end of a command that an error stopped: nothing in the file tree has changed, and the exit
code is 2 for a usage error and 3 for a path of the dataset that cannot be read. -/
structure Ending.Stopped (ending : Ending) (tree : FileTree) (error : AuditError) : Prop where
  tree : ending.tree = tree
  exitCode : (∃ fault, error = .usage fault) ∧ ending.exitCode = 2 ∨
    (∃ path cause, error = .dataAccess path cause) ∧ ending.exitCode = 3

namespace AuditCommand

variable {command : AuditCommand} {host : Host} {tree : FileTree} {clock : Clock}
  {error : AuditError}

/-- The configuration that the options start from: that of the file, or the standard one. -/
def givenConfig (command : AuditCommand) (tree : FileTree) : Except AuditError Config :=
  match command.config with
  | some path => Config.load tree path
  | none => .ok {}

/-- The options decide what fails a run, and may turn the search for near duplicates on. -/
def override (command : AuditCommand) (given : Config) : Config :=
  let near := given.checks.nearDuplicates
  { given with
    failOn := command.failOn.getD given.failOn
    checks := { given.checks with
      nearDuplicates := { near with enabled := near.enabled || command.nearDup } } }

theorem effectiveConfig_eq_map (command : AuditCommand) (tree : FileTree) :
    command.effectiveConfig tree = (command.givenConfig tree).map command.override := by
  unfold effectiveConfig givenConfig
  cases command.config with
  | none => rfl
  | some path =>
      change (Config.load tree path).bind _ = (Config.load tree path).map _
      cases Config.load tree path <;> rfl

/-- A stage of the command fails with an error: its configuration, or one of the audit. -/
inductive Fails (command : AuditCommand) (host : Host) (tree : FileTree) : AuditError → Prop where
  | config {error : AuditError} (h : command.givenConfig tree = .error error) :
      command.Fails host tree error
  | audit {error : AuditError} {config : Config}
      (hConfig : command.effectiveConfig tree = .ok config)
      (h : (command.request host tree config).Fails tree error) : command.Fails host tree error

/-- Nothing but its stages keeps a command from a result. -/
theorem fails_iff : command.Fails host tree error ↔
    ((command.effectiveConfig tree).bind fun config =>
      DatasetAudit.audit tree (command.request host tree config)) = .error error := by
  rw [Except.bind_eq_error_iff]
  have hGiven : command.effectiveConfig tree = .error error ↔
      command.givenConfig tree = .error error := by
    rw [effectiveConfig_eq_map]
    cases command.givenConfig tree <;> simp [Except.map]
  rw [hGiven]
  constructor
  · rintro (h | ⟨hConfig, h⟩)
    · exact .inl h
    · exact .inr ⟨_, hConfig, AuditRequest.fails_iff.mp h⟩
  · rintro (h | ⟨config, hConfig, h⟩)
    · exact .config h
    · exact .audit hConfig (AuditRequest.fails_iff.mpr h)

theorem Fails.kind (h : command.Fails host tree error) :
    (∃ fault, error = .usage fault) ∨ ∃ path cause, error = .dataAccess path cause := by
  cases h with
  | config h =>
      unfold givenConfig at h
      split at h
      · exact .inl (Config.usage_of_load h)
      · cases h
  | audit _ h => exact h.kind

/-- Files are written only when all stages are through. -/
theorem Fails.run_eq (h : command.Fails host tree error) :
    command.run host tree clock = .ofError tree error := by
  have hFinished : ((command.effectiveConfig tree).bind fun config =>
      (DatasetAudit.audit tree (command.request host tree config)).bind fun audited =>
        .ok (audited.index, audited.report config (clock.runInfo config))) = .error error := by
    obtain hConfig | ⟨config, hConfig, hAudit⟩ := Except.bind_eq_error_iff.mp (fails_iff.mp h)
    · rw [hConfig]
      rfl
    · rw [hConfig]
      change (DatasetAudit.audit tree (command.request host tree config)).bind _ = _
      rw [hAudit]
      rfl
  rw [run]
  simp only [bind, hFinished]

theorem Fails.stopped (h : command.Fails host tree error) :
    (command.run host tree clock).Stopped tree error := by
  rw [h.run_eq]
  refine ⟨rfl, ?_⟩
  obtain ⟨fault, rfl⟩ | ⟨path, cause, rfl⟩ := h.kind
  · exact .inl ⟨⟨fault, rfl⟩, rfl⟩
  · exact .inr ⟨⟨path, cause, rfl⟩, rfl⟩

end AuditCommand

end CommandLine

end DatasetAudit
