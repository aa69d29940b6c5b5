import DatasetAudit.Audit
import DatasetAudit.Artifact.Run
import DatasetAudit.Proofs.Artifact.Refusal
import DatasetAudit.Proofs.FileTree.Change

/-! The files of a run in the tree. A run that has written them has left everything else as it was,
and each of them holds its document. The index is known to the next run from its file, if it can be
restored. -/

namespace DatasetAudit

open FileTree (Allowed Free Leads Spares)

variable {tree later : FileTree} {directory path text : String} {place : Location}
  {index : Index} {report : Report} {mtimeNs : Int}

theorem FileTree.readText_eq_ok (h : tree.read path = .ok (Utf8.encode text)) :
    tree.readText path = .ok text := by
  change (tree.read path).bind _ = _
  rw [h]
  simp only [Except.bind, Utf8.decode?_encode]

theorem FileTree.Leads.read_joinText {name : String} {bytes : List UInt8}
    (h : Leads tree directory place) (hName : Allowed name)
    (hNode : tree.node? (place ++ [name]) = some (.file bytes mtimeNs))
    (hOpen : tree.closed? (place ++ [name]) = none) :
    tree.read (Path.joinText directory name) = .ok bytes := by
  have hLocate := (FileTree.locate_joinText_iff hName).mpr ⟨place, h, rfl⟩
  exact FileTree.read_eq_ok_iff.mpr
    ⟨_, mtimeNs, FileTree.find_eq_ok_iff.mpr ⟨hLocate, hNode⟩, hOpen⟩

namespace Artifact

section WriteAll

variable {files : List (String × String)}

/-- The names and texts of files as paths and texts. -/
def filesIn (directory : String) (files : List (String × String)) : List (String × String) :=
  files.map fun file => (Path.joinText directory file.1, file.2)

/-- Files that could be written lie in a directory, and their places were free. -/
theorem exists_leads_of_writeAll (files : List (String × String))
    (hNames : ∀ file ∈ files, Allowed file.1)
    (hFiles : files ≠ []) (h : writeAll tree mtimeNs (filesIn directory files) = (later, .ok ())) :
    ∃ place, Leads tree directory place ∧
      ∀ file ∈ files, Free tree (place ++ [file.1]) := by
  induction files generalizing tree with
  | nil => exact absurd rfl hFiles
  | cons file rest ih =>
      rw [List.forall_mem_cons] at hNames
      rw [filesIn, List.map_cons, writeAll] at h
      split at h
      · rename_i next hWrite
        obtain ⟨target, hLocate, hFirst, rfl⟩ := FileTree.write_eq_ok hWrite
        obtain ⟨place, hLeads, rfl⟩ := (FileTree.locate_joinText_iff hNames.1).mp hLocate
        refine ⟨place, hLeads, List.forall_mem_cons.mpr ⟨hFirst, fun other hOther => ?_⟩⟩
        have hSpares := FileTree.spares_put_file (Utf8.encode file.2) mtimeNs hFirst.node
        obtain ⟨place', hLeads', hFree⟩ := ih hNames.2 (List.ne_nil_of_mem hOther) h
        rw [hLeads'.eq (hSpares.leads hLeads)] at hFree
        exact hSpares.free (hFree other hOther)
      · cases h

/-- Files of different names are written into a directory, each with its text, and nothing else is
changed. -/
theorem exists_writeAll (mtimeNs : Int) (hLeads : Leads tree directory place)
    (hNames : ∀ file ∈ files, Allowed file.1) (hDistinct : (files.map (·.1)).Nodup)
    (hFree : ∀ file ∈ files, Free tree (place ++ [file.1])) :
    ∃ later, writeAll tree mtimeNs (filesIn directory files) = (later, .ok ()) ∧
      Spares (files.map fun file => place ++ [file.1]) tree later ∧
      ∀ file ∈ files,
        later.node? (place ++ [file.1]) = some (.file (Utf8.encode file.2) mtimeNs) := by
  induction files generalizing tree with
  | nil => exact ⟨tree, rfl, .refl tree, nofun⟩
  | cons file rest ih =>
      rw [List.forall_mem_cons] at hNames hFree
      rw [List.map_cons, List.nodup_cons] at hDistinct
      have hLocate := (FileTree.locate_joinText_iff hNames.1).mpr ⟨place, hLeads, rfl⟩
      have hWrite := FileTree.write_of_locate (Utf8.encode file.2) mtimeNs hLocate hFree.1
      have hSpares := FileTree.spares_put_file (Utf8.encode file.2) mtimeNs hFree.1.node
      have hPlace : place ++ [file.1] ≠ [] :=
        List.append_ne_nil_of_right_ne_nil _ (List.cons_ne_nil _ _)
      have hOther : ∀ other ∈ rest, place ++ [file.1] ≠ place ++ [other.1] := by
        intro other hOther hEq
        have hName : file.1 = other.1 := by simpa using hEq
        exact hDistinct.1 (hName ▸ List.mem_map_of_mem hOther)
      obtain ⟨later, hWritten, hRest, hTexts⟩ := ih (hSpares.leads hLeads) hNames.2 hDistinct.2
        fun other hMem => by
          refine ⟨?_, (hFree.2 other hMem).sound⟩
          rw [FileTree.node?_put tree _ hPlace, if_neg (hOther other hMem)]
          exact (hFree.2 other hMem).node
      refine ⟨later, ?_, hSpares.trans hRest, List.forall_mem_cons.mpr ⟨?_, hTexts⟩⟩
      · rw [filesIn, List.map_cons, writeAll, hWrite]
        exact hWritten
      · apply hRest.node?
        · rw [FileTree.node?_put tree _ hPlace, if_pos rfl]
        · rw [List.mem_map]
          rintro ⟨other, hMem, hEq⟩
          exact hOther other hMem hEq.symm

end WriteAll

section WriteRun

/-- The files of a run by name. -/
def contents (index : Index) (report : Report) : List (String × String) :=
  [(indexFile, index.toJson.document), (flagsFile, report.flags.toJson.document),
    (summaryFile, report.summary.toJson.document)]

/-- The names of the files of a run. -/
def names : List String := [indexFile, flagsFile, summaryFile]

theorem allowed_of_mem_names : ∀ name ∈ names, Allowed name := by
  decide

theorem contents_names (index : Index) (report : Report) :
    (contents index report).map (·.1) = names := rfl

theorem allowed_of_mem_contents :
    ∀ file ∈ contents index report, Allowed file.1 := by
  intro file hFile
  exact allowed_of_mem_names file.1 (contents_names index report ▸ List.mem_map_of_mem hFile)

/-- The tree after a run that has written its files into a directory at a place. -/
structure Written (tree later : FileTree) (directory : String) (place : Location) (index : Index)
    (report : Report) : Prop where
  leads : Leads later directory place
  spares : Spares (names.map fun name => place ++ [name]) tree later
  read : ∀ file ∈ contents index report,
    later.read (Path.joinText directory file.1) = .ok (Utf8.encode file.2)
  free : ∀ name ∈ names, Free later (place ++ [name])

theorem written_of_writeAll (index : Index) (report : Report) (mtimeNs : Int)
    (hSpares : Spares [] tree middle) (hLeads : Leads middle directory place)
    (hFree : ∀ name ∈ names, Free middle (place ++ [name])) :
    ∃ later, writeAll middle mtimeNs (documents directory index report) = (later, .ok ()) ∧
      Written tree later directory place index report := by
  obtain ⟨later, hWritten, hRest, hTexts⟩ := exists_writeAll mtimeNs hLeads
    allowed_of_mem_contents (by rw [contents_names]; decide)
    (fun file hFile => hFree file.1 (contents_names index report ▸ List.mem_map_of_mem hFile))
  have hLater := hRest.leads hLeads
  have hSound : ∀ name ∈ names, later.faults (place ++ [name]) = none := fun name hName => by
    rw [hRest.faults, (hFree name hName).sound]
  refine ⟨later, hWritten, hLater, hSpares.trans hRest, fun file hFile => ?_, fun name hName => ?_⟩
  · have hName : file.1 ∈ names := contents_names index report ▸ List.mem_map_of_mem hFile
    exact hLater.read_joinText (allowed_of_mem_contents file hFile) (hTexts file hFile)
      (by rw [FileTree.closed?, hSound file.1 hName])
  · obtain ⟨file, hFile, rfl⟩ := List.mem_map.mp (contents_names index report ▸ hName)
    exact ⟨by simp [hTexts file hFile], hSound file.1 hName⟩

/-- A run that has written its files has changed nothing else. -/
theorem exists_written_of_writeRun {paths : List String}
    (h : writeRun tree directory index report mtimeNs = (later, .ok paths)) :
    ∃ place, Written tree later directory place index report := by
  have hSpares := FileTree.createDirectories_spares tree directory
  unfold writeRun at h
  split at h
  · cases h
  · rename_i middle hCreated
    rw [hCreated] at hSpares
    rcases hAll : writeAll middle mtimeNs (documents directory index report) with ⟨last, outcome⟩
    simp only [hAll, Prod.mk.injEq] at h
    obtain ⟨rfl, hOutcome⟩ := h
    cases outcome with
    | error _ => cases hOutcome
    | ok _ =>
        obtain ⟨place, hLeads, hFree⟩ := exists_leads_of_writeAll
          (contents index report) allowed_of_mem_contents (List.cons_ne_nil _ _) hAll
        obtain ⟨later, hWritten, hResult⟩ := written_of_writeAll index report mtimeNs hSpares
          hLeads (by simpa [contents, names] using hFree)
        rw [hAll] at hWritten
        cases hWritten
        exact ⟨place, hResult⟩

/-- The next run can write its files to the same place. -/
theorem Written.exists_writeRun (h : Written tree later directory place index report)
    (index' : Index) (report' : Report) (mtimeNs : Int) : ∃ last paths,
    writeRun later directory index' report' mtimeNs = (last, .ok paths) ∧
      Written later last directory place index' report' := by
  obtain ⟨last, hAll, hWritten⟩ := written_of_writeAll index' report' mtimeNs (.refl later)
    h.leads h.free
  refine ⟨last, (documents directory index' report').map (·.1), ?_, hWritten⟩
  rw [writeRun, h.leads.createDirectories_eq]
  simp only [hAll]
  rfl

end WriteRun

end Artifact

/-- What the next run knows from the file of an index: all of it, or nothing. -/
theorem IndexCache.load_eq (h : tree.readText path = .ok index.toJson.document) :
    (index.Writable → load tree path = ofIndex index) ∧
      (¬ index.Writable → load tree path = empty) := by
  rw [load, h]
  constructor
  · intro hWritable
    have hParse := Index.parse?_document_eq_some_iff.mpr ⟨hWritable, rfl⟩
    simp only [Except.toOption, Option.bind_some, hParse]
  · intro hNot
    simp only [Except.toOption, Option.bind_some, Index.parse?_document_eq_none hNot]

end DatasetAudit
