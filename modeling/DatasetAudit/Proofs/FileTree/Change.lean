import DatasetAudit.Proofs.FileTree.Basic

/-! What changes of a tree leave alone. Making directories and writing files takes nothing away: a
path still leads where it led, and files elsewhere hold what they held. Where the system fails it goes
on to do so, and nothing new is closed. -/

namespace DatasetAudit

namespace FileTree

open DatasetAudit.Path (IsName)

/-- A later state of a tree has all of its directories, and its files but for those at the places
that have been written. No directory that is new to it is closed. -/
structure Spares (written : List Location) (tree later : FileTree) : Prop where
  base : later.base = tree.base
  faults : later.faults = tree.faults
  opened : ∀ place, tree.closed? place ≠ none → later.node? place = some .directory →
    tree.node? place = some .directory
  directory : ∀ place, tree.node? place = some .directory → later.node? place = some .directory
  file : ∀ place, place ∉ written → ∀ bytes mtimeNs,
    later.nodes[place]? = some (.file bytes mtimeNs) ↔ tree.nodes[place]? = some (.file bytes mtimeNs)

variable {tree middle later : FileTree} {written more : List Location} {place target : Location}
  {node : FileNode} {path directory name : String} {part : PathPart} {parts : List PathPart}
  {bytes : List UInt8} {mtimeNs : Int} {error : FileError}

/-- A file can be written at a place: no directory stands there, and the system does not fail. -/
structure Free (tree : FileTree) (place : Location) : Prop where
  node : tree.node? place ≠ some .directory
  sound : tree.faults place = none

section Put

theorem closed?_eq_none_of_refused? (h : tree.refused? place = none) : tree.closed? place = none := by
  unfold refused? at h
  unfold closed?
  split at h
  · cases h
  · cases h
  · rename_i hClosed _
    split
    · exact absurd ‹_› (hClosed _)
    · rfl

theorem getElem?_put (tree : FileTree) (place other : Location) (node : FileNode) :
    (tree.put place node).nodes[other]? = if place = other then some node else tree.nodes[other]? := by
  rw [put, Std.TreeMap.getElem?_insert]
  simp only [Std.LawfulEqCmp.compare_eq_iff_eq]

theorem node?_put (tree : FileTree) (other : Location) (h : place ≠ []) :
    (tree.put place node).node? other = if place = other then some node else tree.node? other := by
  by_cases hOther : other = []
  · subst hOther
    rw [if_neg h]
    rfl
  · rw [node?_eq_getElem? hOther, node?_eq_getElem? hOther, getElem?_put]

/-- A directory may be put where nothing stands and nothing is refused. -/
theorem spares_put_directory (h : tree.node? place = none) (hOpen : tree.refused? place = none) :
    Spares [] tree (tree.put place .directory) := by
  have hPlace : place ≠ [] := by
    rintro rfl
    cases h
  refine ⟨rfl, rfl, fun other hClosed hOther => ?_, fun other hOther => ?_,
    fun other _ found time => ?_⟩
  · rw [node?_put tree other hPlace] at hOther
    split at hOther
    · rename_i hEq
      exact absurd (hEq ▸ closed?_eq_none_of_refused? hOpen) hClosed
    · exact hOther
  · rw [node?_put tree other hPlace, hOther, ite_self]
  · rw [getElem?_put]
    split
    · rename_i hEq
      rw [← hEq, ← node?_eq_getElem? hPlace, h]
      simp
    · rfl

/-- A file may be put where no directory stands. -/
theorem spares_put_file (bytes : List UInt8) (mtimeNs : Int)
    (h : tree.node? place ≠ some .directory) :
    Spares [place] tree (tree.put place (.file bytes mtimeNs)) := by
  have hPlace : place ≠ [] := by
    rintro rfl
    exact h rfl
  refine ⟨rfl, rfl, fun other _ hOther => ?_, fun other hOther => ?_,
    fun other hOther found time => ?_⟩
  · rw [node?_put tree other hPlace] at hOther
    split at hOther
    · cases hOther
    · exact hOther
  · rw [node?_put tree other hPlace, if_neg, hOther]
    rintro rfl
    exact h hOther
  · rw [getElem?_put, if_neg]
    rintro rfl
    exact hOther List.mem_cons_self

end Put

namespace Spares

theorem refl (tree : FileTree) : Spares [] tree tree :=
  ⟨rfl, rfl, fun _ _ h => h, fun _ h => h, fun _ _ _ _ => Iff.rfl⟩

theorem trans (h : Spares written tree middle) (hMore : Spares more middle later) :
    Spares (written ++ more) tree later where
  base := hMore.base.trans h.base
  faults := hMore.faults.trans h.faults
  opened place hClosed hPlace := by
    apply h.opened place hClosed
    apply hMore.opened place _ hPlace
    rwa [closed?, h.faults]
  directory place hPlace := hMore.directory place (h.directory place hPlace)
  file place hPlace bytes mtimeNs := by
    rw [List.mem_append, not_or] at hPlace
    rw [hMore.file place hPlace.2, h.file place hPlace.1]

variable (h : Spares written tree later)

include h

theorem node? (hNode : tree.node? place = some node) (hPlace : place ∉ written) :
    later.node? place = some node := by
  cases node with
  | directory => exact h.directory place hNode
  | file found time =>
      have hNonempty := ne_nil_of_file hNode
      rw [node?_eq_getElem? hNonempty] at hNode ⊢
      exact (h.file place hPlace found time).mpr hNode

/-- A file that was not written was there before. -/
theorem node?_of_file (hNode : later.node? place = some (.file bytes mtimeNs))
    (hPlace : place ∉ written) : tree.node? place = some (.file bytes mtimeNs) := by
  have hNonempty := ne_nil_of_file hNode
  rw [node?_eq_getElem? hNonempty] at hNode ⊢
  exact (h.file place hPlace bytes mtimeNs).mp hNode

theorem closed?_eq (place : Location) : later.closed? place = tree.closed? place := by
  rw [closed?, closed?, h.faults]

/-- A place that is free later was free before. -/
theorem free (hFree : Free later place) : Free tree place :=
  ⟨fun hNode => hFree.node (h.directory place hNode), by rw [← h.faults, hFree.sound]⟩

theorem start (path : Path) : later.start path = tree.start path := by
  rw [FileTree.start, FileTree.start, h.base]

/-- A path still leads where it led. -/
theorem follow (hFollow : tree.follow place parts = .ok target) :
    later.follow place parts = .ok target := by
  induction parts generalizing place with
  | nil => exact hFollow
  | cons part parts ih =>
      obtain ⟨next, hStep, hRest⟩ := Except.exists_of_bind hFollow
      have hLater : later.step place part = .ok next := by
        rw [step_eq_ok_iff] at hStep ⊢
        exact ⟨h.directory place hStep.1, hStep.2⟩
      change (later.step place part).bind _ = _
      rw [hLater]
      exact ih hRest

theorem locate (hLocate : tree.locate path = .ok place) : later.locate path = .ok place := by
  obtain ⟨hEmpty, hNul, hFollow, hDirectory⟩ := locate_eq_ok hLocate
  apply locate_of_follow hEmpty hNul
  · rw [h.start]
    exact h.follow hFollow
  · exact fun hPath => h.directory place (hDirectory hPath)

theorem find (hFind : tree.find path = .ok (place, node)) (hPlace : place ∉ written) :
    later.find path = .ok (place, node) := by
  rw [find_eq_ok_iff] at hFind ⊢
  exact ⟨h.locate hFind.1, h.node? hFind.2 hPlace⟩

theorem find_directory (hFind : tree.find path = .ok (place, .directory)) :
    later.find path = .ok (place, .directory) := by
  rw [find_eq_ok_iff] at hFind ⊢
  exact ⟨h.locate hFind.1, h.directory place hFind.2⟩

/-- A walk that went to its end does so again. -/
theorem stop?_eq_none (hNode : tree.node? place = some .directory) (hStop : tree.stop? place = none) :
    later.stop? place = none := by
  rw [stop?_eq_none_iff (h.directory place hNode)]
  intro below hBelow
  rw [h.closed?_eq]
  by_contra hClosed
  exact hClosed ((stop?_eq_none_iff hNode).mp hStop below (h.opened _ hClosed hBelow))

end Spares

section Directories

theorem makeDirectory_spares (h : tree.makeDirectory place parts = .ok later) :
    Spares [] tree later := by
  obtain ⟨target, -, hMade⟩ := Except.exists_of_bind h
  split at hMade
  · rename_i hNone hOpen
    cases hMade
    exact spares_put_directory hNone hOpen
  · cases hMade
  · cases hMade
  · obtain ⟨_, -, hNever⟩ := Except.exists_of_bind hMade
    cases hNever

/-- Directories are made where nothing stands, also if not all of them can be made. -/
theorem makeDirectories_spares (tree : FileTree) (place : Location) (parts : List PathPart) :
    Spares [] tree (tree.makeDirectories place parts).1 := by
  induction parts with
  | nil => exact .refl tree
  | cons last front ih =>
      rw [makeDirectories]
      split
      · rename_i hMade
        exact makeDirectory_spares hMade
      · split
        · rename_i hFront
          rwa [hFront] at ih
        · rename_i hFront
          rw [hFront] at ih
          split
          · rename_i hMade
            exact ih.trans (makeDirectory_spares hMade)
          · exact ih
      · exact .refl tree

theorem createDirectories_spares (tree : FileTree) (path : String) :
    Spares [] tree (tree.createDirectories path).1 := by
  rw [createDirectories]
  split
  · exact .refl tree
  · exact makeDirectories_spares tree _ _

/-- A text names the directory at a place. -/
structure Leads (tree : FileTree) (directory : String) (place : Location) : Prop where
  noNul : '\x00' ∉ directory.toList
  follow : tree.follow (tree.start (Path.ofString directory)) (Path.ofString directory).parts =
    .ok place
  node : tree.node? place = some .directory

theorem Spares.leads (h : Spares written tree later) (hLeads : Leads tree directory place) :
    Leads later directory place where
  noNul := hLeads.noNul
  follow := by
    rw [h.start]
    exact h.follow hLeads.follow
  node := h.directory place hLeads.node

theorem Leads.eq (h : Leads tree directory place) (hOther : Leads tree directory target) :
    place = target :=
  Except.ok.inj (h.follow.symm.trans hOther.follow)

/-- A directory that is there is left as it is. -/
theorem Leads.createDirectories_eq (h : Leads tree directory place) :
    tree.createDirectories directory = (tree, .ok ()) := by
  have hNul : directory.toList.contains '\x00' = false := by simpa using h.noNul
  have hFollow := h.follow
  rw [createDirectories, hNul]
  simp only [Bool.false_eq_true, if_false]
  generalize Path.ofString directory = parsed at hFollow
  rw [← List.reverse_reverse parsed.parts] at hFollow
  cases hParts : parsed.parts.reverse with
  | nil => rfl
  | cons last front =>
      rw [hParts] at hFollow
      have hThere : tree.leadsToDirectory (tree.start parsed) (last :: front).reverse = true := by
        rw [leadsToDirectory, hFollow]
        simp [h.node]
      have hMade : tree.makeDirectory (tree.start parsed) (last :: front).reverse =
          .error .alreadyThere := by
        rw [makeDirectory]
        change (tree.follow _ _).bind _ = _
        rw [hFollow]
        simp only [Except.bind, h.node, directoryAt]
        split <;> simp_all
      rw [makeDirectories]
      simp only [hMade, hThere, if_true]

end Directories

section Files

theorem openFile_eq_ok_iff : tree.openFile path = .ok place ↔
    tree.locate path = .ok place ∧ tree.node? place ≠ some .directory ∧
      tree.refused? place = none := by
  constructor
  · intro h
    obtain ⟨target, hLocate, h⟩ := Except.exists_of_bind h
    split at h
    · cases h
    · cases h
    · rename_i hOpen hNode
      cases h
      exact ⟨hLocate, hNode, hOpen⟩
  · rintro ⟨hLocate, hNode, hOpen⟩
    change (tree.locate path).bind _ = _
    rw [hLocate]
    simp only [Except.bind, hOpen]

/-- A file that has been written could be written, and now stands at its place. -/
theorem write_eq_ok (h : tree.write path bytes mtimeNs = (later, .ok ())) :
    ∃ place, tree.locate path = .ok place ∧ Free tree place ∧
      later = tree.put place (.file bytes mtimeNs) := by
  unfold write at h
  split at h
  · cases h
  · rename_i place hPlace
    obtain ⟨hLocate, hNode, hOpen⟩ := openFile_eq_ok_iff.mp hPlace
    split at h
    · cases h
    · rename_i hWhole
      cases h
      refine ⟨place, hLocate, ⟨hNode, ?_⟩, rfl⟩
      unfold refused? at hOpen
      rcases hFault : tree.faults place with _ | _ | _ | ⟨kept, error⟩
      · rfl
      · simp [hFault] at hOpen
      · simp [hFault] at hOpen
      · exact absurd hFault (hWhole kept error)

/-- A file that could not be written in full was not opened, and all is as it was, or a beginning of
its bytes stands at its place. -/
theorem write_eq_error (h : tree.write path bytes mtimeNs = (later, .error error)) :
    later = tree ∨ ∃ place kept, tree.locate path = .ok place ∧
      tree.node? place ≠ some .directory ∧ tree.closed? place = none ∧
      later = tree.put place (.file (bytes.dropLast.take kept) mtimeNs) := by
  unfold write at h
  split at h
  · cases h
    exact .inl rfl
  · rename_i place hPlace
    obtain ⟨hLocate, hNode, hOpen⟩ := openFile_eq_ok_iff.mp hPlace
    split at h
    · cases h
      exact .inr ⟨place, _, hLocate, hNode, closed?_eq_none_of_refused? hOpen, rfl⟩
    · cases h

theorem write_of_locate (bytes : List UInt8) (mtimeNs : Int)
    (hLocate : tree.locate path = .ok place) (hFree : Free tree place) :
    tree.write path bytes mtimeNs = (tree.put place (.file bytes mtimeNs), .ok ()) := by
  have hOpen : tree.refused? place = none := by
    rw [refused?, hFree.sound]
  rw [write, openFile_eq_ok_iff.mpr ⟨hLocate, hFree.node, hOpen⟩]
  simp only [hFree.sound]

/-- A file that is put at a place that is not closed is read as it was put there. -/
theorem read_put (bytes : List UInt8) (mtimeNs : Int) (hLocate : tree.locate path = .ok place)
    (hNode : tree.node? place ≠ some .directory) (hOpen : tree.closed? place = none) :
    (tree.put place (.file bytes mtimeNs)).read path = .ok bytes := by
  have hPlace : place ≠ [] := by
    rintro rfl
    exact hNode rfl
  refine read_eq_ok_iff.mpr ⟨place, mtimeNs, find_eq_ok_iff.mpr ⟨?_, ?_⟩, hOpen⟩
  · exact (spares_put_file bytes mtimeNs hNode).locate hLocate
  · rw [node?_put tree place hPlace, if_pos rfl]

/-- A written file is read as it was written. -/
theorem read_of_write (h : tree.write path bytes mtimeNs = (later, .ok ())) :
    later.read path = .ok bytes := by
  obtain ⟨place, hLocate, hFree, rfl⟩ := write_eq_ok h
  exact read_put bytes mtimeNs hLocate hFree.node (by rw [closed?, hFree.sound])

/-- A name behind the text of a directory leads to that name in it. -/
theorem locate_joinText_iff (h : Allowed name) :
    tree.locate (Path.joinText directory name) = .ok target ↔
      ∃ place, Leads tree directory place ∧ target = place ++ [name] := by
  obtain ⟨between, hBetween, hText⟩ := Path.toList_joinText directory name
  have hNul : '\x00' ∉ (Path.joinText directory name).toList ↔ '\x00' ∉ directory.toList := by
    have hSlash : '\x00' ∉ between := fun hMem => absurd (hBetween hMem) (by decide)
    simp [hText, hSlash, h.noNul]
  have hFile : isDirectoryPath (Path.joinText directory name) = false :=
    isDirectoryPath_of_name h.isName hText
  have hFollow : tree.follow (tree.start (Path.ofString (Path.joinText directory name)))
        (Path.ofString (Path.joinText directory name)).parts = .ok target ↔
      ∃ place, tree.follow (tree.start (Path.ofString directory)) (Path.ofString directory).parts =
        .ok place ∧ tree.node? place = some .directory ∧ target = place ++ [name] := by
    rw [Path.ofString_joinText directory h.isName]
    change tree.follow (tree.start (Path.ofString directory))
      ((Path.ofString directory).parts ++ [.name name]) = .ok target ↔ _
    rw [follow_append_name]
    simp only [h.short, true_and]
  constructor
  · intro hLocate
    obtain ⟨-, hNoNul, hTarget, -⟩ := locate_eq_ok hLocate
    obtain ⟨place, hPlace, hNode, rfl⟩ := hFollow.mp hTarget
    exact ⟨place, ⟨hNul.mp hNoNul, hPlace, hNode⟩, rfl⟩
  · rintro ⟨place, hLeads, rfl⟩
    apply locate_of_follow _ (hNul.mpr hLeads.noNul)
      (hFollow.mpr ⟨place, hLeads.follow, hLeads.node, rfl⟩)
    · simp [hFile]
    · rw [hText]
      exact List.append_ne_nil_of_right_ne_nil _ h.isName.nonempty

theorem Leads.locate_joinText_iff (h : Leads tree directory place) (hName : Allowed name) :
    tree.locate (Path.joinText directory name) = .ok target ↔ target = place ++ [name] := by
  rw [FileTree.locate_joinText_iff hName]
  constructor
  · rintro ⟨other, hOther, rfl⟩
    rw [hOther.eq h]
  · exact fun hTarget => ⟨place, h, hTarget⟩

end Files

end FileTree

end DatasetAudit
