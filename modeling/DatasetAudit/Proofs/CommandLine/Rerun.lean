import DatasetAudit.CommandLine.Basic
import DatasetAudit.Proofs.Artifact.Run
import DatasetAudit.Proofs.Index.Rebuild
import DatasetAudit.Proofs.Index.Reload
import DatasetAudit.Proofs.Scan.Unchanged

/-! Auditing again. The files of a run are no part of the dataset, so the next run of the same command
finds the same images and labels. What it knows from the index of the run before is what it would
work out itself, or nothing; so it comes to the same result. -/

namespace DatasetAudit

open FileTree (WellFormed Spares)

variable {tree later : FileTree} {written : List Location} {path text : String} {place : Location}
  {node : FileNode} {requested : List Split} {layout : Layout} {config : Config}

section Descriptions

/-- What a path leads to is what its canonical text leads to. -/
theorem FileTree.WellFormed.find_canonical (hTree : tree.WellFormed)
    (hFind : tree.find path = .ok (place, node)) :
    tree.find ("/" ++ "/".intercalate place) = .ok (place, node) := by
  obtain ⟨-, hNode⟩ := FileTree.find_eq_ok_iff.mp hFind
  have hNames : Path.HasNames ⟨true, place.map .name⟩ place :=
    ⟨rfl, fun name hName => (hTree.allowed_of_node? hNode name hName).isName⟩
  have hText : ("/" ++ "/".intercalate place) = (Path.mk true (place.map .name)).text := by
    rw [Path.text, List.map_map]
    exact congrArg _ (congrArg _ (List.map_id place).symm)
  rw [hText]
  exact hTree.find_text hNames (.inl rfl) hNode

theorem FileTree.Spares.readText_eq (hSpares : Spares written tree later)
    (hFree : ∀ place, tree.locate path = .ok place → place ∉ written)
    (h : tree.readText path = .ok text) : later.readText path = .ok text := by
  obtain ⟨bytes, hRead, h⟩ := Except.exists_of_bind h
  obtain ⟨place, mtimeNs, hFind, hOpen⟩ := FileTree.read_eq_ok_iff.mp hRead
  have hPlace := hFree place (FileTree.find_eq_ok_iff.mp hFind).1
  have hLater := FileTree.read_eq_ok_iff.mpr
    ⟨place, mtimeNs, hSpares.find hFind hPlace, by rw [hSpares.closed?_eq, hOpen]⟩
  change (later.read path).bind _ = _
  rw [hLater]
  exact h

theorem Config.load_eq (hSpares : Spares written tree later)
    (hFree : ∀ place, tree.locate path = .ok place → place ∉ written)
    (h : Config.load tree path = .ok config) : Config.load later path = .ok config := by
  unfold Config.load at h ⊢
  split at h
  · cases h
  · rename_i hText
    rw [hSpares.readText_eq hFree hText]
    exact h

theorem Layout.load_eq (hTree : tree.WellFormed) (hSpares : Spares written tree later)
    (hFree : ∀ place, tree.locate path = .ok place → place ∉ written)
    (h : Layout.load tree path requested = .ok layout) :
    Layout.load later path requested = .ok layout := by
  unfold Layout.load FileTree.canonical at h ⊢
  cases hFind : tree.find path with
  | error _ =>
      rw [hFind] at h
      cases h
  | ok found =>
      obtain ⟨place, node⟩ := found
      have hPlace := hFree place (FileTree.find_eq_ok_iff.mp hFind).1
      have hCanonical := (FileTree.find_eq_ok_iff.mp (hTree.find_canonical hFind)).1
      rw [hFind] at h
      rw [hSpares.find hFind hPlace]
      simp only [Except.map] at h ⊢
      split at h
      · cases h
      · rename_i hText
        rw [hSpares.readText_eq _ hText]
        · exact h
        · intro target hTarget
          obtain rfl : place = target := Except.ok.inj (hCanonical.symm.trans hTarget)
          exact hPlace

end Descriptions

section Audit

variable {request : AuditRequest} {run : AuditRun} {cache : IndexCache}

/-- An audit that started cold gives the same in a tree that differs in other files only, whether it
knows its index already or nothing. -/
theorem audit_again (hTree : tree.WellFormed) (hSpares : Spares written tree later)
    (hUnseen : Scan.Unseen written)
    (hFree : ∀ place, tree.locate request.dataYaml = .ok place → place ∉ written)
    (hCold : request.cache = .empty) (hCache : cache = .empty ∨ cache = .ofIndex run.index)
    (h : audit tree request = .ok run) : audit later { request with cache } = .ok run := by
  obtain ⟨_, hValid, h⟩ := Except.exists_of_bind h
  obtain ⟨layout, hLayout, h⟩ := Except.exists_of_bind h
  obtain ⟨source, hSource, h⟩ := Except.exists_of_bind h
  obtain ⟨index, hIndex, h⟩ := Except.exists_of_bind h
  obtain rfl := Except.ok.inj h
  obtain ⟨hScan, ⟨place, hRoot, hRoot'⟩, hImages⟩ :=
    scan_eq hTree hSpares hUnseen (Layout.resolved_of_load hLayout) hSource
  rw [hCold] at hIndex
  have hFiles (given : IndexCache) :
      Index.build later.view source request.config request.options request.decoder given =
        Index.build tree.view source request.config request.options request.decoder given := by
    apply Index.build_eq_of_files
    · simp only [FileTree.view, FileTree.stat, hRoot, hRoot']
    · intro record hRecord
      obtain ⟨place, bytes, mtimeNs, hFind, hFind'⟩ := hImages record hRecord
      simp only [FileTree.view, FileTree.stat, hFind, hFind']
    · intro record hRecord
      obtain ⟨place, bytes, mtimeNs, hFind, hFind'⟩ := hImages record hRecord
      simp only [FileTree.view]
      rw [FileTree.read_of_find hFind, FileTree.read_of_find hFind', hSpares.closed?_eq]
  have hBuild : Index.build later.view source request.config request.options request.decoder cache =
      .ok index := by
    rw [hFiles]
    rcases hCache with rfl | rfl
    · exact hIndex
    · exact Index.build_ofIndex hIndex
  change ((request.config.validate).mapError _).bind _ = _
  rw [hValid]
  change (Layout.load later request.dataYaml request.splits).bind _ = _
  rw [Layout.load_eq hTree hSpares hFree hLayout]
  change (scan later layout).bind _ = _
  rw [hScan]
  change (Index.build later.view source request.config request.options request.decoder cache).bind _ = _
  rw [hBuild]
  rfl

end Audit

/-- The files of a run are neither images nor labels. -/
theorem Artifact.unseen (place : Location) :
    Scan.Unseen (names.map fun name => place ++ [name]) := by
  have hNames : ∀ name ∈ names, ∀ extensions ∈ [Scan.imageExtensions, Scan.labelExtensions],
      Scan.hasExtension extensions [name] = false := by
    decide +kernel
  intro file hFile extensions hExtensions
  obtain ⟨name, hName, rfl⟩ := List.mem_map.mp hFile
  have hLast := hNames name hName extensions hExtensions
  rw [Scan.hasExtension] at hLast ⊢
  rwa [List.getLast?_append_of_ne_nil _ (List.cons_ne_nil _ _)]

theorem Artifact.Written.read_files {directory : String} {index : Index} {report : Report}
    (h : Written tree later directory place index report) :
    later.read (Path.joinText directory indexFile) = .ok (Utf8.encode index.toJson.document) ∧
    later.read (Path.joinText directory flagsFile) =
      .ok (Utf8.encode report.flags.toJson.document) ∧
    later.read (Path.joinText directory summaryFile) =
      .ok (Utf8.encode report.summary.toJson.document) := by
  have hRead := h.read
  simp only [contents, List.forall_mem_cons] at hRead
  exact ⟨hRead.1, hRead.2.1, hRead.2.2.1⟩

namespace CommandLine

/-- Reports of one audit differ only in the name and the times of the run. -/
theorem exists_report_eq (audited : AuditRun) (config : Config) (clock again : Clock) :
    ∃ (report : Report) (runId startedAt finishedAt : String) (durationSec : Float),
      audited.report config (clock.runInfo config) = report ∧
        audited.report config (again.runInfo config) =
          { report with
            summary :=
              { report.summary with
                run := { report.summary.run with runId, startedAt, finishedAt, durationSec } } } :=
  ⟨_, _, _, _, _, rfl, rfl⟩

/-- A run comes to the same as an earlier one: the same exit code, the same index and the same
findings, and a summary that differs only in the name and the times of the run. -/
structure Ending.Repeats (directory : String) (first second : Ending) : Prop where
  exitCode : second.exitCode = first.exitCode
  index : ∃ bytes,
    first.tree.read (Path.joinText directory Artifact.indexFile) = .ok bytes ∧
      second.tree.read (Path.joinText directory Artifact.indexFile) = .ok bytes
  flags : ∃ bytes,
    first.tree.read (Path.joinText directory Artifact.flagsFile) = .ok bytes ∧
      second.tree.read (Path.joinText directory Artifact.flagsFile) = .ok bytes
  summary : ∃ (summary : Summary) (runId startedAt finishedAt : String) (durationSec : Float),
    first.tree.read (Path.joinText directory Artifact.summaryFile) =
        .ok (Utf8.encode summary.toJson.document) ∧
      second.tree.read (Path.joinText directory Artifact.summaryFile) =
        .ok (Utf8.encode ({ summary with
          run := { summary.run with runId, startedAt, finishedAt, durationSec } } : Summary
            ).toJson.document)

namespace AuditCommand

/-- Neither the description of the dataset nor the configuration is a file of the run. -/
def Apart (command : AuditCommand) (tree : FileTree) : Prop :=
  ∀ path ∈ command.data :: command.config.toList, ∀ name ∈ Artifact.names,
    tree.locate path ≠ tree.locate (Path.joinText command.out name)

/-- A run of the command that has written its files. -/
structure Finished (command : AuditCommand) (host : Host) (tree : FileTree) (clock : Clock)
    (config : Config) (audited : AuditRun) (last : FileTree) : Prop where
  settings : command.effectiveConfig tree = .ok config
  result : audit tree (command.request host tree config) = .ok audited
  files : ∃ paths, Artifact.writeRun tree command.out audited.index
    (audited.report config (clock.runInfo config)) clock.finished = (last, .ok paths)

variable {command : AuditCommand} {host : Host} {clock again : Clock} {audited : AuditRun}
  {last : FileTree}

theorem Finished.run_eq (h : command.Finished host tree clock config audited last) :
    (command.run host tree clock).tree = last ∧ (command.run host tree clock).exitCode =
      (audited.report config (clock.runInfo config)).exitCode := by
  obtain ⟨paths, hWritten⟩ := h.files
  have hBind {α : Type} (rest : Config → AuditRun → Except AuditError α) :
      ((command.effectiveConfig tree).bind fun config =>
        (audit tree (command.request host tree config)).bind (rest config)) = rest config audited := by
    rw [h.settings]
    change (audit tree (command.request host tree config)).bind _ = _
    rw [h.result]
    rfl
  simp only [run, bind, hBind, hWritten, and_self]

/-- Such a run ends with 0 or 1, and the other way round. -/
theorem Finished.exitCode (h : command.Finished host tree clock config audited last) :
    (command.run host tree clock).exitCode = 0 ∨ (command.run host tree clock).exitCode = 1 := by
  rw [h.run_eq.2, Report.exitCode]
  split <;> simp

theorem exists_finished
    (h : (command.run host tree clock).exitCode = 0 ∨ (command.run host tree clock).exitCode = 1) :
    ∃ config audited,
      command.Finished host tree clock config audited (command.run host tree clock).tree := by
  have hError (left : FileTree) (error : AuditError) :
      ¬ ((Ending.ofError left error).exitCode = 0 ∨ (Ending.ofError left error).exitCode = 1) := by
    cases error <;> simp [Ending.ofError, AuditError.exitCode]
  rw [run] at h ⊢
  split at h
  · exact absurd h (hError _ _)
  · rename_i index report hFinished
    obtain ⟨config, hConfig, hRest⟩ := Except.exists_of_bind hFinished
    obtain ⟨audited, hAudited, hReport⟩ := Except.exists_of_bind hRest
    cases hReport
    rcases hWritten : Artifact.writeRun tree command.out audited.index
      (audited.report config (clock.runInfo config)) clock.finished with ⟨last, _ | paths⟩
    · rw [hWritten] at h
      exact absurd h (hError _ _)
    · exact ⟨config, audited, hConfig, hAudited, paths, hWritten⟩

theorem effectiveConfig_eq (hSpares : Spares written tree later)
    (hFree : ∀ path ∈ command.config, ∀ place, tree.locate path = .ok place → place ∉ written)
    (h : command.effectiveConfig tree = .ok config) :
    command.effectiveConfig later = .ok config := by
  unfold effectiveConfig at h ⊢
  cases hPath : command.config with
  | none =>
      rw [hPath] at h
      exact h
  | some path =>
      rw [hPath] at h
      obtain ⟨loaded, hLoaded, h⟩ := Except.exists_of_bind h
      simp only
      rw [Config.load_eq hSpares (hFree path (by simp [hPath])) hLoaded]
      exact h

/-- Where there is no index, nothing is known. -/
theorem cache_eq_empty
    (h : ∀ bytes, tree.read (Path.joinText command.out Artifact.indexFile) ≠ .ok bytes) :
    command.cache tree = .empty := by
  have hText : (tree.readText (Path.joinText command.out Artifact.indexFile)).toOption = none := by
    cases hRead : tree.read (Path.joinText command.out Artifact.indexFile) with
    | error _ =>
        change ((tree.read _).bind _).toOption = none
        rw [hRead]
        rfl
    | ok bytes => exact absurd hRead (h bytes)
  rw [cache]
  split
  · rfl
  · rw [IndexCache.load, hText]
    rfl

/-- After a run its index is known, or nothing. -/
theorem cache_of_written {index : Index} {report : Report}
    (h : Artifact.Written tree later command.out place index report) :
    command.cache later = .empty ∨ command.cache later = .ofIndex index := by
  rw [cache]
  split
  · exact .inl rfl
  · obtain ⟨hIndex, -⟩ := h.read_files
    obtain ⟨hKnown, hLost⟩ := IndexCache.load_eq (FileTree.readText_eq_ok hIndex)
    by_cases hWritable : index.Writable
    · exact .inr (hKnown hWritable)
    · exact .inl (hLost hWritable)

/-- What the files of a run may not replace is not where they are. -/
theorem Apart.notMem {index : Index} {report : Report} (h : command.Apart later)
    (hWritten : Artifact.Written tree later command.out place index report) :
    ∀ path ∈ command.data :: command.config.toList, ∀ target, tree.locate path = .ok target →
      target ∉ Artifact.names.map fun name => place ++ [name] := by
  intro path hPath target hTarget hMem
  obtain ⟨name, hName, rfl⟩ := List.mem_map.mp hMem
  apply h path hPath name hName
  rw [hWritten.spares.locate hTarget, (FileTree.locate_joinText_iff
    (Artifact.allowed_of_mem_names name hName)).mpr ⟨place, hWritten.leads, rfl⟩]

/-- A run that ended with 0 or 1 and did not find an index of an earlier one comes to the same
result when it is repeated, whatever the images and labels hold. -/
theorem run_repeats (command : AuditCommand) (host : Host) (tree : FileTree) (clock again : Clock)
    (hTree : tree.WellFormed)
    (hNew : ∀ bytes, tree.read (Path.joinText command.out Artifact.indexFile) ≠ .ok bytes)
    (hApart : command.Apart (command.run host tree clock).tree)
    (hExit : (command.run host tree clock).exitCode = 0 ∨ (command.run host tree clock).exitCode = 1) :
    Ending.Repeats command.out (command.run host tree clock)
      (command.run host (command.run host tree clock).tree again) := by
  obtain ⟨config, audited, hFinished⟩ := exists_finished hExit
  obtain ⟨-, hCode⟩ := hFinished.run_eq
  generalize (command.run host tree clock) = first at *
  obtain ⟨paths, hFiles⟩ := hFinished.files
  obtain ⟨place, hWritten⟩ := Artifact.exists_written_of_writeRun hFiles
  have hFree := hApart.notMem hWritten
  have hConfig : command.effectiveConfig first.tree = .ok config :=
    effectiveConfig_eq hWritten.spares
      (fun path hPath => hFree path (List.mem_cons_of_mem _ (Option.mem_toList.mpr hPath)))
      hFinished.settings
  have hAudited : audit first.tree (command.request host first.tree config) = .ok audited :=
    audit_again hTree hWritten.spares (Artifact.unseen place) (hFree command.data List.mem_cons_self)
      (cache_eq_empty hNew) (cache_of_written hWritten) hFinished.result
  obtain ⟨last, paths', hFiles', hWritten'⟩ := hWritten.exists_writeRun audited.index
    (audited.report config (again.runInfo config)) again.finished
  have hAgain : command.Finished host first.tree again config audited last :=
    ⟨hConfig, hAudited, paths', hFiles'⟩
  obtain ⟨rfl, hCode'⟩ := hAgain.run_eq
  obtain ⟨report, runId, startedAt, finishedAt, durationSec, hReport, hReport'⟩ :=
    exists_report_eq audited config clock again
  rw [hReport] at hCode hWritten
  rw [hReport'] at hCode' hWritten'
  obtain ⟨hIndex, hFlags, hSummary⟩ := hWritten.read_files
  obtain ⟨hIndex', hFlags', hSummary'⟩ := hWritten'.read_files
  exact ⟨hCode'.trans hCode.symm, ⟨_, hIndex, hIndex'⟩, ⟨_, hFlags, hFlags'⟩,
    ⟨_, _, _, _, _, hSummary, hSummary'⟩⟩

instance (command : AuditCommand) (tree : FileTree) : Decidable (command.Apart tree) :=
  inferInstanceAs (Decidable (∀ path ∈ command.data :: command.config.toList,
    ∀ name ∈ Artifact.names, tree.locate path ≠ tree.locate (Path.joinText command.out name)))

/-- A dataset with one image, a coordinate of which is infinite: the index of a run over it cannot be
read by the next run. -/
def unbounded : FileTree :=
  (IndexCache.labelled "0 inf 0.5 0.1 0.1").put ["d", "data.yaml"]
    (.file (Utf8.encode "names: [a]\ntrain: images\n") 1)

/-- An audit of that dataset. -/
def plain : AuditCommand where
  data := "/d/data.yaml"
  out := "/d/out"

theorem exists_finished_plain : ∃ audited last,
    plain.Finished {} unbounded ⟨0, 1⟩ {} audited last := by
  have hAudit : (audit unbounded (plain.request {} unbounded {})).toOption.isSome = true := by
    decide +kernel
  have hWrite (index : Index) (report : Report) :
      (Artifact.writeRun unbounded plain.out index report 1).2.toOption.isSome = true := rfl
  obtain ⟨audited, hAudited⟩ := Except.exists_of_isSome_toOption hAudit
  obtain ⟨paths, hPaths⟩ := Except.exists_of_isSome_toOption
    (hWrite audited.index (audited.report {} (Clock.runInfo ⟨0, 1⟩ {})))
  exact ⟨audited, _, rfl, hAudited, paths, Prod.ext rfl hPaths⟩

theorem unbounded_repeats : unbounded.WellFormed ∧
    unbounded.read "/d/out/index.json" = .error .notFound ∧
    plain.Apart (plain.run {} unbounded ⟨0, 1⟩).tree ∧
    ((plain.run {} unbounded ⟨0, 1⟩).exitCode = 0 ∨ (plain.run {} unbounded ⟨0, 1⟩).exitCode = 1) ∧
    Ending.Repeats "/d/out" (plain.run {} unbounded ⟨0, 1⟩)
      (plain.run {} (plain.run {} unbounded ⟨0, 1⟩).tree ⟨2000000000, 3000000000⟩) := by
  have hTree : unbounded.WellFormed := FileTree.wellFormed_of_toList (by decide +kernel)
  have hNew : unbounded.read "/d/out/index.json" = .error .notFound := rfl
  have hApart : plain.Apart (plain.run {} unbounded ⟨0, 1⟩).tree := by decide +kernel
  obtain ⟨_, _, hFinished⟩ := exists_finished_plain
  exact ⟨hTree, hNew, hApart, hFinished.exitCode,
    run_repeats plain {} unbounded ⟨0, 1⟩ ⟨2000000000, 3000000000⟩ hTree
      (fun bytes hRead => nomatch hNew.symm.trans hRead) hApart hFinished.exitCode⟩

end AuditCommand

end CommandLine

end DatasetAudit
