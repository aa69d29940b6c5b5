import DatasetAudit.Proofs.Check.Origin

/-! The integrity findings of four kinds, picked out of all. They are made one for each entry without
a label file, one for each image that cannot be read, one for each row of an unknown class, and one
for each orphan label file. -/

namespace DatasetAudit.Integrity

variable {entry : IndexEntry} {classCount : Nat} {id : FindingId}

theorem id_outOfRange (entry : IndexEntry) (row : AnnotationRow) :
    (outOfRange entry row).id = .integrityCoordOutOfRange := by
  unfold outOfRange Finding.ofClass
  split <;> rfl

/-- Besides what is said about files and lines that cannot be read, there are the missing label file
and the rows. -/
theorem filter_entryFindings_eq (hImage : id ≠ .integrityCorruptImage)
    (hLine : id ≠ .integrityMalformedRow) :
    (entryFindings entry classCount).filter (fun f => f.id = id) =
      (if entry.labels.isMissing then [missingLabel entry] else []).filter (fun f => f.id = id) ++
        (entry.labels.rows.flatMap (rowFindings entry classCount)).filter fun f => f.id = id := by
  have hCorrupt (reason : String) : (corruptImage entry reason).id ≠ id := hImage.symm
  have hUnreadable (reason : String) : (unreadableLabel entry reason).id ≠ id := hLine.symm
  have hMalformed (error : RowError) : (malformedRow entry error).id ≠ id := hLine.symm
  have hImages : (entry.imageError.map (corruptImage entry)).toList.filter
      (fun f => f.id = id) = [] := by
    cases entry.imageError <;> simp [hCorrupt]
  have hState : (stateFindings entry).filter (fun f => f.id = id) = [] := by
    unfold stateFindings
    split <;> simp [hUnreadable]
  have hErrors : (entry.labels.errors.map (malformedRow entry)).filter
      (fun f => f.id = id) = [] := by
    simp [List.filter_map, hMalformed]
  simp only [entryFindings, List.filter_append, hImages, hState, hErrors, List.append_nil]

/-- The rows that one entry flags are those of no class of the dataset. -/
theorem filter_entryFindings_unknownClass (entry : IndexEntry) (classCount : Nat) :
    (entryFindings entry classCount).filter (fun f => f.id = .integrityInvalidClassId) =
      (entry.labels.rows.filter fun row => !isKnownClass classCount row.classId).map
        (unknownClass entry classCount) := by
  have hMissing : (if entry.labels.isMissing then [missingLabel entry] else []).filter
      (fun f => f.id = .integrityInvalidClassId) = [] := by
    split <;> rfl
  have hRow (row : AnnotationRow) : (rowFindings entry classCount row).filter
      (fun f => f.id = .integrityInvalidClassId) =
        if !isKnownClass classCount row.classId then [unknownClass entry classCount row]
        else [] := by
    have hUnknown : (unknownClass entry classCount row).id = .integrityInvalidClassId := rfl
    unfold rowFindings
    cases isKnownClass classCount row.classId <;> cases row.values.all isInUnit <;>
      simp [hUnknown, id_outOfRange]
  rw [filter_entryFindings_eq (by decide) (by decide), hMissing, List.nil_append,
    List.filter_flatMap]
  simp only [hRow]
  exact flatMap_ite_eq_map _ _ _

/-- Rows have findings of two kinds only. -/
theorem filter_rowFindings_eq_nil (hClass : id ≠ .integrityInvalidClassId)
    (hRange : id ≠ .integrityCoordOutOfRange) (rows : List AnnotationRow) :
    (rows.flatMap (rowFindings entry classCount)).filter (fun f => f.id = id) = [] := by
  have hRow (row : AnnotationRow) : ∀ f ∈ rowFindings entry classCount row, f.id ≠ id :=
    forall_mem_rowFindings hClass.symm (by rw [id_outOfRange]; exact hRange.symm)
  rw [List.filter_eq_nil_iff]
  intro f hFinding
  obtain ⟨row, -, hFinding⟩ := List.mem_flatMap.mp hFinding
  simpa using hRow row f hFinding

theorem filter_entryFindings_missingLabel (entry : IndexEntry) (classCount : Nat) :
    (entryFindings entry classCount).filter (fun f => f.id = .integrityMissingLabel) =
      if entry.labels.isMissing then [missingLabel entry] else [] := by
  have hMissing : (if entry.labels.isMissing then [missingLabel entry] else []).filter
      (fun f => f.id = .integrityMissingLabel) =
        if entry.labels.isMissing then [missingLabel entry] else [] := by
    split <;> rfl
  rw [filter_entryFindings_eq (by decide) (by decide), hMissing,
    filter_rowFindings_eq_nil (by decide) (by decide), List.append_nil]

/-- An entry says once what is wrong with its image. -/
theorem filter_entryFindings_corruptImage (entry : IndexEntry) (classCount : Nat) :
    (entryFindings entry classCount).filter (fun f => f.id = .integrityCorruptImage) =
      (entry.imageError.map (corruptImage entry)).toList := by
  have hCorrupt (reason : String) : (corruptImage entry reason).id = .integrityCorruptImage := rfl
  have hMissing : (if entry.labels.isMissing then [missingLabel entry] else []).filter
      (fun f => f.id = .integrityCorruptImage) = [] := by
    split <;> rfl
  have hImages : (entry.imageError.map (corruptImage entry)).toList.filter
      (fun f => f.id = .integrityCorruptImage) =
        (entry.imageError.map (corruptImage entry)).toList := by
    cases entry.imageError <;> simp [hCorrupt]
  have hState : (stateFindings entry).filter (fun f => f.id = .integrityCorruptImage) = [] := by
    unfold stateFindings
    split <;> rfl
  have hErrors : (entry.labels.errors.map (malformedRow entry)).filter
      (fun f => f.id = .integrityCorruptImage) = [] := by
    rw [List.filter_eq_nil_iff]
    intro f hFinding
    obtain ⟨error, -, rfl⟩ := List.mem_map.mp hFinding
    exact Bool.false_ne_true
  simp only [entryFindings, List.filter_append, hMissing, hImages, hState, hErrors,
    filter_rowFindings_eq_nil (by decide : FindingId.integrityCorruptImage ≠ _) (by decide),
    List.append_nil, List.nil_append]

/-- An image is reported as broken exactly if it could not be read or decoded. -/
theorem exists_corruptImage_iff (entry : IndexEntry) (classCount : Nat) :
    (∃ f ∈ entryFindings entry classCount, f.id = .integrityCorruptImage) ↔
      entry.imageError.isSome := by
  have hFiltered : (∃ f ∈ entryFindings entry classCount, f.id = .integrityCorruptImage) ↔
      ∃ f, f ∈ (entryFindings entry classCount).filter fun f => f.id = .integrityCorruptImage := by
    simp only [List.mem_filter, decide_eq_true_eq]
  rw [hFiltered, filter_entryFindings_corruptImage]
  cases entry.imageError <;> simp

section Index

variable (index : Index)

theorem filter_orphans_eq_nil (h : id ≠ .integrityOrphanLabel) :
    (index.splits.flatMap fun info => info.orphanLabels.map (orphanLabel info.split)).filter
      (fun f => f.id = id) = [] := by
  have hOrphan (split : Split) (label : String) : (orphanLabel split label).id ≠ id := h.symm
  simp [List.filter_flatMap, List.filter_map, hOrphan]

/-- The rows of no class of the dataset are flagged entry by entry. -/
theorem filter_unknownClass : (findings index).filter (fun f => f.id = .integrityInvalidClassId) =
    index.entries.flatMap fun entry =>
      (entry.labels.rows.filter fun row => !isKnownClass index.classCount row.classId).map
        (unknownClass entry index.classCount) := by
  rw [findings, List.filter_append, filter_orphans_eq_nil index (by decide), List.append_nil,
    List.filter_flatMap]
  simp only [filter_entryFindings_unknownClass]

/-- As many rows are flagged as are of no class of the dataset. -/
theorem countP_unknownClass : (findings index).countP (fun f => f.id = .integrityInvalidClassId) =
    (index.entries.flatMap fun entry => entry.labels.rows).countP
      fun row => !isKnownClass index.classCount row.classId := by
  rw [List.countP_eq_length_filter, filter_unknownClass, List.length_flatMap, List.countP_flatMap]
  congr 2
  funext entry
  simp only [Function.comp_apply, List.countP_eq_length_filter, List.length_map]

/-- The entries without a label file are flagged in their order. -/
theorem filter_missingLabel : (findings index).filter (fun f => f.id = .integrityMissingLabel) =
    (index.entries.filter fun entry => entry.labels.isMissing).map missingLabel := by
  rw [findings, List.filter_append, filter_orphans_eq_nil index (by decide), List.append_nil,
    List.filter_flatMap]
  simp only [filter_entryFindings_missingLabel]
  exact flatMap_ite_eq_map _ _ _

/-- The orphan label files are flagged in the order of splits. -/
theorem filter_orphanLabel : (findings index).filter (fun f => f.id = .integrityOrphanLabel) =
    index.splits.flatMap fun info => info.orphanLabels.map (orphanLabel info.split) := by
  have hEntries : (index.entries.flatMap fun entry => entryFindings entry index.classCount).filter
      (fun f => f.id = .integrityOrphanLabel) = [] := by
    have hEntry (entry : IndexEntry) :
        ∀ f ∈ entryFindings entry index.classCount, f.id ≠ .integrityOrphanLabel :=
      forall_mem_entryFindings nofun (fun _ => nofun) (fun _ => nofun) (fun _ => nofun)
        (fun _ => nofun) fun row => by rw [id_outOfRange]; decide
    rw [List.filter_eq_nil_iff]
    intro f hFinding
    obtain ⟨entry, -, hFinding⟩ := List.mem_flatMap.mp hFinding
    simpa using hEntry entry f hFinding
  have hOrphans : ∀ f ∈ index.splits.flatMap fun info =>
      info.orphanLabels.map (orphanLabel info.split), f.id = .integrityOrphanLabel := by
    intro f hFinding
    obtain ⟨info, -, hFinding⟩ := List.mem_flatMap.mp hFinding
    obtain ⟨label, -, rfl⟩ := List.mem_map.mp hFinding
    rfl
  rw [findings, List.filter_append, hEntries, List.nil_append, List.filter_eq_self]
  simpa using hOrphans

end Index

end DatasetAudit.Integrity
