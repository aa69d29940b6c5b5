import DatasetAudit.Proofs.Artifact.Run
import DatasetAudit.Proofs.Index.Sample

/-! What a run leaves behind that cannot write its files. It stops at the first file that cannot be
written in full: the files before that one are those of the run, and the files behind it are as they
were. That one is as it was if it could not be opened, and else it is left with a beginning of what it
was to hold. -/

namespace DatasetAudit

open FileTree (Allowed Leads Spares)

namespace Artifact

variable {tree middle later : FileTree} {directory : String} {place : Location} {index : Index}
  {report : Report} {mtimeNs : Int} {error : AuditError} {cause : FileError}
  {files done others : List (String × String)} {failed : String × String}

/-- Of files that could not all be written, those before one of them have been written, and that one
could not be. -/
theorem exists_of_writeAll_eq_error
    (h : writeAll tree mtimeNs (filesIn directory files) = (later, .error error)) :
    ∃ done failed rest cause middle, files = done ++ failed :: rest ∧
      error = .artifact (Path.joinText directory failed.1) cause ∧
      writeAll tree mtimeNs (filesIn directory done) = (middle, .ok ()) ∧
      middle.write (Path.joinText directory failed.1) (Utf8.encode failed.2) mtimeNs =
        (later, .error cause) := by
  induction files generalizing tree with
  | nil => cases h
  | cons file files ih =>
      rw [filesIn, List.map_cons, writeAll] at h
      split at h
      · rename_i next hWrite
        obtain ⟨done, failed, rest, cause, middle, hFiles, hError, hDone, hFailed⟩ := ih h
        refine ⟨file :: done, failed, rest, cause, middle, by rw [hFiles, List.cons_append], hError,
          ?_, hFailed⟩
        rw [filesIn, List.map_cons, writeAll, hWrite]
        exact hDone
      · rename_i next cause hWrite
        obtain ⟨rfl, hError⟩ := Prod.mk.inj h
        exact ⟨[], file, files, cause, tree, rfl, (Except.error.inj hError).symm, rfl, hWrite⟩

/-- A tree in which some files of a directory have been written, one may have been left with a
beginning, others are as they were, and nothing else has changed. -/
structure PartlyWritten (tree later : FileTree) (directory : String)
    (done : List (String × String)) (broken : Option (String × String))
    (others : List (String × String)) : Prop where
  written : ∀ file ∈ done, later.read (Path.joinText directory file.1) = .ok (Utf8.encode file.2)
  begun : ∀ file ∈ broken, ∃ bytes, later.read (Path.joinText directory file.1) = .ok bytes ∧
    bytes <+: Utf8.encode file.2
  kept : ∀ file ∈ others, ∀ place bytes time,
    tree.find (Path.joinText directory file.1) = .ok (place, .file bytes time) →
      later.find (Path.joinText directory file.1) = .ok (place, .file bytes time)
  old : ∀ file ∈ others, ∀ place bytes time,
    later.find (Path.joinText directory file.1) = .ok (place, .file bytes time) →
      tree.node? place = some (.file bytes time)
  elsewhere : ∃ places, Spares places tree later ∧ ∀ place ∈ places,
    ∃ file ∈ done ++ broken.toList, later.locate (Path.joinText directory file.1) = .ok place

/-- Nothing has been written yet. -/
theorem partlyWritten_nil (hSpares : Spares [] tree later) (others : List (String × String)) :
    PartlyWritten tree later directory [] none others where
  written := nofun
  begun := nofun
  kept _ _ _ _ _ hFind := hSpares.find hFind nofun
  old _ _ _ _ _ hFind := hSpares.node?_of_file (FileTree.find_eq_ok_iff.mp hFind).2 nofun
  elsewhere := ⟨[], hSpares, nofun⟩

/-- Files that have been written leave files of other names in the directory as they were. -/
theorem partlyWritten_of_writeAll (hSpares : Spares [] tree middle) (hDone : done ≠ [])
    (hNames : ∀ file ∈ done ++ others, Allowed file.1)
    (hDistinct : ((done ++ others).map (·.1)).Nodup)
    (h : writeAll middle mtimeNs (filesIn directory done) = (later, .ok ())) :
    PartlyWritten tree later directory done none others := by
  rw [List.forall_mem_append] at hNames
  rw [List.map_append, List.nodup_append] at hDistinct
  obtain ⟨hNodup, -, hApart⟩ := hDistinct
  obtain ⟨place, hLeads, hFree⟩ := exists_leads_of_writeAll done hNames.1 hDone h
  obtain ⟨last, hWritten, hWrites, hTexts⟩ := exists_writeAll mtimeNs hLeads hNames.1 hNodup hFree
  obtain rfl : last = later := congrArg Prod.fst (hWritten.symm.trans h)
  have hLater := hWrites.leads hLeads
  have hChange := hSpares.trans hWrites
  -- The files lie side by side in one place, so those with other names are not written to.
  have hOther : ∀ file ∈ others, place ++ [file.1] ∉ done.map fun file => place ++ [file.1] := by
    intro file hFile hMem
    obtain ⟨other, hOther, hEq⟩ := List.mem_map.mp hMem
    have hName : other.1 = file.1 := by simpa using hEq
    exact hApart other.1 (List.mem_map_of_mem hOther) file.1 (List.mem_map_of_mem hFile) hName
  refine ⟨fun file hFile => ?_, nofun, fun file hFile target bytes time hFind => ?_,
    fun file hFile target bytes time hFind => ?_, _, hChange, fun target hTarget => ?_⟩
  · apply hLater.read_joinText (hNames.1 file hFile) (hTexts file hFile)
    rw [hWrites.closed?_eq, FileTree.closed?, (hFree file hFile).sound]
  · have hTarget := (hLater.locate_joinText_iff (hNames.2 file hFile)).mp
      (hChange.locate (FileTree.find_eq_ok_iff.mp hFind).1)
    exact hChange.find hFind (hTarget ▸ hOther file hFile)
  · obtain ⟨hLocate, hNode⟩ := FileTree.find_eq_ok_iff.mp hFind
    have hTarget := (hLater.locate_joinText_iff (hNames.2 file hFile)).mp hLocate
    exact hChange.node?_of_file hNode (hTarget ▸ hOther file hFile)
  · obtain ⟨file, hFile, rfl⟩ := List.mem_map.mp hTarget
    exact ⟨file, List.mem_append_left _ hFile,
      (hLater.locate_joinText_iff (hNames.1 file hFile)).mpr rfl⟩

/-- A file whose writing breaks off is left with a beginning, and the files around it are left alone. -/
theorem PartlyWritten.breakOff
    (h : PartlyWritten tree middle directory done none (failed :: others))
    (hNames : ∀ file ∈ done ++ failed :: others, Allowed file.1)
    (hDistinct : ((done ++ failed :: others).map (·.1)).Nodup)
    (hLocate : middle.locate (Path.joinText directory failed.1) = .ok place)
    (hNode : middle.node? place ≠ some .directory) (hOpen : middle.closed? place = none) (kept : Nat) :
    PartlyWritten tree
      (middle.put place (.file ((Utf8.encode failed.2).dropLast.take kept) mtimeNs)) directory done
      (some failed) others := by
  have hPut := FileTree.spares_put_file ((Utf8.encode failed.2).dropLast.take kept) mtimeNs hNode
  have hRead := FileTree.read_put ((Utf8.encode failed.2).dropLast.take kept) mtimeNs hLocate hNode
    hOpen
  generalize middle.put place (.file ((Utf8.encode failed.2).dropLast.take kept) mtimeNs) = last
    at hPut hRead
  rw [List.forall_mem_append, List.forall_mem_cons] at hNames
  obtain ⟨hDoneNames, hFailed, hOtherNames⟩ := hNames
  rw [List.map_append, List.map_cons, List.nodup_append, List.nodup_cons] at hDistinct
  obtain ⟨-, ⟨hRest, -⟩, hApart⟩ := hDistinct
  obtain ⟨upper, hLeads, rfl⟩ := (FileTree.locate_joinText_iff hFailed).mp hLocate
  have hLater := hPut.leads hLeads
  have hBefore {name : String} {target : Location} (hName : Allowed name)
      (hTarget : middle.locate (Path.joinText directory name) = .ok target)
      (hNe : name ≠ failed.1) : target ∉ [upper ++ [failed.1]] := by
    rw [(hLeads.locate_joinText_iff hName).mp hTarget]
    simpa using hNe
  have hDoneNe : ∀ file ∈ done, file.1 ≠ failed.1 := fun file hFile =>
    hApart file.1 (List.mem_map_of_mem hFile) failed.1 List.mem_cons_self
  have hOtherNe : ∀ file ∈ others, file.1 ≠ failed.1 := fun file hFile hEq =>
    hRest (hEq ▸ List.mem_map_of_mem hFile)
  obtain ⟨places, hSpares, hPlaces⟩ := h.elsewhere
  refine ⟨fun file hFile => ?_, fun file hFile => ?_, fun file hFile target bytes time hFind => ?_,
    fun file hFile target bytes time hFind => ?_, _, hSpares.trans hPut, fun target hTarget => ?_⟩
  · obtain ⟨target, time, hFind, hGiven⟩ := FileTree.read_eq_ok_iff.mp (h.written file hFile)
    have hTarget := hBefore (hDoneNames file hFile) (FileTree.find_eq_ok_iff.mp hFind).1
      (hDoneNe file hFile)
    exact FileTree.read_eq_ok_iff.mpr
      ⟨target, time, hPut.find hFind hTarget, by rw [hPut.closed?_eq, hGiven]⟩
  · obtain rfl := Option.some.inj hFile
    exact ⟨_, hRead, (List.take_prefix _ _).trans (List.dropLast_prefix _)⟩
  · have hMiddle := h.kept file (List.mem_cons_of_mem _ hFile) target bytes time hFind
    exact hPut.find hMiddle (hBefore (hOtherNames file hFile)
      (FileTree.find_eq_ok_iff.mp hMiddle).1 (hOtherNe file hFile))
  · obtain ⟨hThere, hFound⟩ := FileTree.find_eq_ok_iff.mp hFind
    have hTarget := (hLater.locate_joinText_iff (hOtherNames file hFile)).mp hThere
    have hMiddle := (hLeads.locate_joinText_iff (hOtherNames file hFile)).mpr hTarget
    have hNode := hPut.node?_of_file hFound
      (hBefore (hOtherNames file hFile) hMiddle (hOtherNe file hFile))
    exact h.old file (List.mem_cons_of_mem _ hFile) target bytes time
      (FileTree.find_eq_ok_iff.mpr ⟨hMiddle, hNode⟩)
  · rcases List.mem_append.mp hTarget with hTarget | hTarget
    · obtain ⟨file, hFile, hThere⟩ := hPlaces target hTarget
      exact ⟨file, List.mem_append_left _ (by simpa using hFile), hPut.locate hThere⟩
    · obtain rfl := List.mem_singleton.mp hTarget
      exact ⟨failed, by simp, hPut.locate hLocate⟩

/-- The summary is the last file. -/
theorem summary_mem_of_contents {done rest : List (String × String)}
    (h : contents index report = done ++ failed :: rest) :
    (summaryFile, report.summary.toJson.document) ∈ failed :: rest := by
  have hLast := congrArg List.getLast? h
  rw [List.getLast?_append_of_ne_nil _ (List.cons_ne_nil failed rest)] at hLast
  exact List.mem_of_getLast? hLast.symm

/-- The files of a run that have been written leave those behind them as they were. -/
theorem partlyWritten_of_contents {done rest : List (String × String)}
    (hSpares : Spares [] tree middle) (hFiles : contents index report = done ++ failed :: rest)
    (h : writeAll middle mtimeNs (filesIn directory done) = (later, .ok ())) :
    PartlyWritten tree later directory done none (failed :: rest) := by
  by_cases hNil : done = []
  · subst hNil
    cases h
    exact partlyWritten_nil hSpares _
  · refine partlyWritten_of_writeAll hSpares hNil (hFiles ▸ allowed_of_mem_contents) ?_ h
    rw [← hFiles, contents_names]
    decide

/-- A file of a run that cannot be written is left as it was or with a beginning. -/
theorem PartlyWritten.of_write_eq_error {rest : List (String × String)}
    (h : PartlyWritten tree middle directory done none (failed :: rest))
    (hFiles : contents index report = done ++ failed :: rest)
    (hWrite : middle.write (Path.joinText directory failed.1) (Utf8.encode failed.2) mtimeNs =
      (later, .error cause)) :
    PartlyWritten tree later directory done none (failed :: rest) ∨
      PartlyWritten tree later directory done (some failed) rest := by
  obtain rfl | ⟨place, kept, hLocate, hNode, hOpen, rfl⟩ := FileTree.write_eq_error hWrite
  · exact .inl h
  · refine .inr (h.breakOff (hFiles ▸ allowed_of_mem_contents) ?_ hLocate hNode hOpen kept)
    rw [← hFiles, contents_names]
    decide

/-- A directory with the index and the summary of an earlier run, where a directory stands in the
place of its findings. -/
def occupied : FileTree :=
  (((({} : FileTree).put ["d"] .directory).put ["d", "index.json"]
    (.file (Utf8.encode "old index") 1)).put ["d", "flags.json"] .directory).put
      ["d", "summary.json"] (.file (Utf8.encode "old summary") 1)

/-- A run into that directory stops behind its index. -/
theorem exists_writeRun_occupied (index : Index) (report : Report) : ∃ later,
    writeRun occupied "/d" index report 2 =
      (later, .error (.artifact "/d/flags.json" .isDirectory)) ∧
    later.read "/d/index.json" = .ok (Utf8.encode index.toJson.document) ∧
    later.read "/d/summary.json" = .ok (Utf8.encode "old summary") :=
  ⟨_, rfl, rfl, rfl⟩

/-- The report of a run without checks. -/
def blankReport : Report :=
  .ofOutcomes (.ofEntries []) {} [] (.ofConfig "run" "" "" 0 {})

/-- A directory with the files of an earlier run, on a disk that gets full behind the first bytes of
the new findings. -/
def crowded : FileTree :=
  (((({} : FileTree).put ["d"] .directory).put ["d", "flags.json"]
    (.file (Utf8.encode "old findings") 1)).put ["d", "summary.json"]
      (.file (Utf8.encode "old summary") 1)).withFault ["d", "flags.json"]
        (.breaksOff 2 (.system "No space left on device (os error 28)"))

/-- A run into that directory leaves the beginning of its findings there. -/
theorem exists_writeRun_crowded (index : Index) (report : Report) : ∃ later,
    writeRun crowded "/d" index report 2 =
      (later, .error (.artifact "/d/flags.json"
        (.system "No space left on device (os error 28)"))) ∧
    later.read "/d/flags.json" =
      .ok ((Utf8.encode report.flags.toJson.document).dropLast.take 2) ∧
    later.read "/d/summary.json" = .ok (Utf8.encode "old summary") :=
  ⟨_, rfl, rfl, rfl⟩

end Artifact

end DatasetAudit
