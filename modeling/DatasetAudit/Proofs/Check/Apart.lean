import DatasetAudit.Proofs.Check.Origin
import DatasetAudit.Proofs.Finding.Subject

/-! What the findings of a run are about. No two of them are about the same, if images and labels are
told apart by their names and lines by their numbers. -/

namespace DatasetAudit

open Fingerprint (mark)

namespace Finding

variable {a b : Finding} {findings others : List Finding}

/-- All findings can be told from each other by what they are about. -/
structure ToldApart (findings : List Finding) : Prop where
  marked : ∀ finding ∈ findings, finding.Marked
  differ : findings.Pairwise Differs

namespace ToldApart

theorem nil : ToldApart [] :=
  ⟨List.forall_mem_nil _, .nil⟩

theorem append (h : ToldApart findings) (hOthers : ToldApart others)
    (hApart : ∀ a ∈ findings, ∀ b ∈ others, a.Differs b) : ToldApart (findings ++ others) :=
  ⟨List.forall_mem_append.mpr ⟨h.marked, hOthers.marked⟩,
    List.pairwise_append.mpr ⟨h.differ, hOthers.differ, hApart⟩⟩

theorem flatMap {α : Type} {items : List α} {found : α → List Finding}
    (h : ∀ item ∈ items, ToldApart (found item))
    (hApart : items.Pairwise fun item other => ∀ a ∈ found item, ∀ b ∈ found other, a.Differs b) :
    ToldApart (items.flatMap found) := by
  refine ⟨fun finding hFinding => ?_, List.pairwise_flatMap.mpr ⟨fun item hItem => ?_, hApart⟩⟩
  · obtain ⟨item, hItem, hFinding⟩ := List.mem_flatMap.mp hFinding
    exact (h item hItem).marked finding hFinding
  · exact (h item hItem).differ

/-- One finding for each item, no two of them the same. -/
theorem map {α : Type} {items : List α} {found : α → Finding}
    (h : ∀ item ∈ items, (found item).Marked)
    (hApart : items.Pairwise fun item other => (found item).Differs (found other)) :
    ToldApart (items.map found) :=
  ⟨List.forall_mem_map.mpr h, List.pairwise_map.mpr hApart⟩

theorem filterMap {α : Type} {items : List α} {found : α → Option Finding}
    (h : ∀ item ∈ items, ∀ a ∈ found item, a.Marked)
    (hApart : items.Pairwise fun item other => ∀ a ∈ found item, ∀ b ∈ found other, a.Differs b) :
    ToldApart (items.filterMap found) := by
  refine ⟨fun a ha => ?_, hApart.filterMap _ fun _ _ hItems => hItems⟩
  obtain ⟨item, hItem, ha⟩ := List.mem_filterMap.mp ha
  exact h item hItem a ha

end ToldApart

/-- Findings of some kinds that can be told from each other. -/
structure OfKinds (kinds : List FindingId) (findings : List Finding) : Prop where
  apart : ToldApart findings
  kinds : ∀ finding ∈ findings, finding.id ∈ kinds

namespace OfKinds

variable {kind : FindingId} {kinds kinds' : List FindingId}

theorem nil (kinds : List FindingId) : OfKinds kinds [] :=
  ⟨.nil, List.forall_mem_nil _⟩

theorem singleton (h : a.Marked) (hKind : a.id = kind) : OfKinds [kind] [a] :=
  ⟨⟨List.forall_mem_singleton.mpr h, List.pairwise_singleton _ _⟩,
    List.forall_mem_singleton.mpr (List.mem_singleton.mpr hKind)⟩

theorem of_option {found : Option Finding} (h : ∀ a ∈ found, a.Marked ∧ a.id = kind) :
    OfKinds [kind] found.toList := by
  cases found with
  | none => exact nil [kind]
  | some finding => exact singleton (h finding rfl).1 (h finding rfl).2

theorem ite {c : Prop} [Decidable c] (h : OfKinds kinds findings) (h' : OfKinds kinds others) :
    OfKinds kinds (if c then findings else others) := by
  split
  · exact h
  · exact h'

theorem flatMap {α : Type} {items : List α} {found : α → List Finding}
    (h : ∀ item ∈ items, OfKinds kinds (found item))
    (hApart : items.Pairwise fun item other => ∀ a ∈ found item, ∀ b ∈ found other, a.Differs b) :
    OfKinds kinds (items.flatMap found) := by
  refine ⟨.flatMap (fun item hItem => (h item hItem).apart) hApart, fun a ha => ?_⟩
  obtain ⟨item, hItem, ha⟩ := List.mem_flatMap.mp ha
  exact (h item hItem).kinds a ha

/-- Findings of different kinds differ. -/
theorem append (h : OfKinds kinds findings) (hOthers : OfKinds kinds' others)
    (hKinds : ∀ kind ∈ kinds, kind ∉ kinds') : OfKinds (kinds ++ kinds') (findings ++ others) := by
  refine ⟨h.apart.append hOthers.apart fun a ha b hb hId => ?_, fun a ha => ?_⟩
  · exact absurd (hId ▸ hOthers.kinds b hb) (hKinds a.id (h.kinds a ha))
  · rcases List.mem_append.mp ha with ha | ha
    · exact List.mem_append_left _ (h.kinds a ha)
    · exact List.mem_append_right _ (hOthers.kinds a ha)

end OfKinds

end Finding

theorem Split.mark_notMem_name (split : Split) : mark ∉ split.name.toList := by
  cases split <;> decide

theorem Split.name_injective {split other : Split} (h : split.name = other.name) :
    split = other := by
  revert h
  cases split <;> cases other <;> decide

section Entries

variable {entry other : IndexEntry} {a b : Finding} {more more' : List String}

/-- A finding is about an entry, and maybe about something in its label file. -/
structure Finding.Locates (finding : Finding) (entry : IndexEntry) (more : List String) : Prop where
  subject : finding.subject = entry.fingerprintParts ++ more
  fingerprint : finding.fingerprint =
    DatasetAudit.fingerprint finding.id (entry.fingerprintParts ++ more)
  plain : ∀ part ∈ more, mark ∉ part.toList

namespace Finding.Locates

theorem marked (h : a.Locates entry more) (hImage : mark ∉ entry.image.toList) : a.Marked := by
  refine ⟨h.subject ▸ h.fingerprint, ?_⟩
  rw [h.subject, List.forall_mem_append, IndexEntry.fingerprintParts, List.forall_mem_cons,
    List.forall_mem_singleton]
  exact ⟨⟨Split.mark_notMem_name entry.split, hImage⟩, h.plain⟩

theorem ofClass (h : a.Locates entry more) (row : AnnotationRow)
    (hId : a.id ≠ .integrityInvalidClassId) : (a.ofClass row).Locates entry more := by
  refine ⟨(subject_ofClass row hId).trans h.subject, ?_, h.plain⟩
  rw [fingerprint_ofClass, id_ofClass]
  exact h.fingerprint

theorem differs_of_key_ne (h : a.Locates entry more) (hOther : b.Locates other more')
    (hKey : entry.key ≠ other.key) : a.Differs b := by
  intro _ hSubject
  rw [h.subject, hOther.subject] at hSubject
  obtain ⟨hSplit, hRest⟩ := List.cons.inj hSubject
  obtain ⟨hImage, -⟩ := List.cons.inj hRest
  exact hKey ((ImageKey.mk.injEq ..).mpr ⟨Split.name_injective hSplit, hImage⟩)

theorem differs_of_more_ne (h : a.Locates entry more) (hOther : b.Locates entry more')
    (hMore : more ≠ more') : a.Differs b := by
  intro _ hSubject
  rw [h.subject, hOther.subject] at hSubject
  exact hMore (List.append_cancel_left hSubject)

end Finding.Locates

theorem lineText_injective {line line' : UInt32} (h : lineText line = lineText line') :
    line = line' :=
  UInt32.toNat_inj.mp (Text.toString_injective h)

theorem mark_notMem_lineText (line : UInt32) : mark ∉ (lineText line).toList :=
  Text.notMem_toString rfl line.toNat

theorem pairwise_differs_of_rows {rows : List AnnotationRow} {found : AnnotationRow → List Finding}
    (hLines : (rows.map AnnotationRow.line).Nodup)
    (h : ∀ row, ∀ a ∈ found row, ∃ more, a.Locates entry (lineText row.line :: more)) :
    rows.Pairwise fun row other => ∀ a ∈ found row, ∀ b ∈ found other, a.Differs b := by
  apply (List.pairwise_map.mp hLines).imp
  intro row other hLine a ha b hb
  obtain ⟨_, hLocates⟩ := h row a ha
  obtain ⟨_, hOther⟩ := h other b hb
  apply hLocates.differs_of_more_ne hOther
  intro hMore
  exact hLine (lineText_injective (List.cons.inj hMore).1)

theorem pairwise_differs_of_entries {entries : List IndexEntry}
    {found : IndexEntry → List Finding} (hKeys : (entries.map IndexEntry.key).Nodup)
    (h : ∀ entry ∈ entries, ∀ a ∈ found entry, ∃ more, a.Locates entry more) :
    entries.Pairwise fun entry other => ∀ a ∈ found entry, ∀ b ∈ found other, a.Differs b := by
  apply (List.pairwise_map.mp hKeys).imp_of_mem
  intro entry other hEntry hOther hKey a ha b hb
  obtain ⟨_, hLocates⟩ := h entry hEntry a ha
  obtain ⟨_, hLocates'⟩ := h other hOther b hb
  exact hLocates.differs_of_key_ne hLocates' hKey

end Entries

/-- Labels in which lines are told apart by their numbers, and no reason holds a separator. -/
structure LabelState.Numbered (labels : LabelState) : Prop where
  rows : (labels.rows.map AnnotationRow.line).Nodup
  errors : (labels.errors.map RowError.line).Nodup
  reasons : ∀ error ∈ labels.errors, mark ∉ error.reason.toList

/-- An index in which images, splits and labels without images have names of their own. -/
structure Index.Named (index : Index) : Prop where
  keys : (index.entries.map IndexEntry.key).Nodup
  images : ∀ entry ∈ index.entries, mark ∉ entry.image.toList
  labels : ∀ entry ∈ index.entries, entry.labels.Numbered
  splits : (index.splits.map SplitInfo.split).Nodup
  orphans : ∀ info ∈ index.splits, info.orphanLabels.Nodup
  orphanNames : ∀ info ∈ index.splits, ∀ label ∈ info.orphanLabels, mark ∉ label.toList

namespace Integrity

open Finding (ToldApart OfKinds)

variable {entry : IndexEntry} {classCount : Nat} {a : Finding}

theorem locates_missingLabel (entry : IndexEntry) : (missingLabel entry).Locates entry [] :=
  ⟨rfl, rfl, List.forall_mem_nil _⟩

theorem locates_corruptImage (entry : IndexEntry) (reason : String) :
    (corruptImage entry reason).Locates entry [] :=
  ⟨rfl, rfl, List.forall_mem_nil _⟩

theorem locates_unreadableLabel (entry : IndexEntry) (reason : String) :
    (unreadableLabel entry reason).Locates entry [lineText 0, readErrorReason] :=
  ⟨rfl, rfl, by decide⟩

theorem locates_malformedRow (entry : IndexEntry) {error : RowError}
    (h : mark ∉ error.reason.toList) :
    (malformedRow entry error).Locates entry [lineText error.line, error.reason] := by
  refine ⟨rfl, rfl, List.forall_mem_cons.mpr ⟨mark_notMem_lineText error.line, ?_⟩⟩
  exact List.forall_mem_singleton.mpr h

theorem locates_unknownClass (entry : IndexEntry) (classCount : Nat) (row : AnnotationRow) :
    (unknownClass entry classCount row).Locates entry
      [lineText row.line, toString row.classId.toInt] := by
  have hClass : mark ∉ (toString row.classId.toInt).toList :=
    Text.notMem_intText rfl (by decide) row.classId.toInt
  refine ⟨rfl, rfl, List.forall_mem_cons.mpr ⟨mark_notMem_lineText row.line, ?_⟩⟩
  exact List.forall_mem_singleton.mpr hClass

theorem locates_outOfRange (entry : IndexEntry) (row : AnnotationRow) :
    (outOfRange entry row).Locates entry [lineText row.line] := by
  apply Finding.Locates.ofClass _ row (by exact nofun)
  exact ⟨rfl, rfl, List.forall_mem_singleton.mpr (mark_notMem_lineText row.line)⟩

theorem ofKinds_rowFindings (hImage : mark ∉ entry.image.toList) (classCount : Nat)
    (row : AnnotationRow) : OfKinds [.integrityInvalidClassId, .integrityCoordOutOfRange]
      (rowFindings entry classCount row) := by
  have hClass : OfKinds [.integrityInvalidClassId] (if isKnownClass classCount row.classId then []
      else [unknownClass entry classCount row]) :=
    .ite (.nil _) (.singleton ((locates_unknownClass entry classCount row).marked hImage) rfl)
  have hRange : OfKinds [.integrityCoordOutOfRange] (if row.values.all isInUnit then []
      else [outOfRange entry row]) :=
    .ite (.nil _) (.singleton ((locates_outOfRange entry row).marked hImage)
      (Finding.id_ofClass _ row))
  exact hClass.append hRange (by decide)

theorem locates_of_mem_rowFindings {row : AnnotationRow}
    (h : a ∈ rowFindings entry classCount row) :
    ∃ more, a.Locates entry (lineText row.line :: more) := by
  rcases List.mem_append.mp h with h | h
  · split at h
    · cases h
    · obtain rfl := List.mem_singleton.mp h
      exact ⟨_, locates_unknownClass entry classCount row⟩
  · split at h
    · cases h
    · obtain rfl := List.mem_singleton.mp h
      exact ⟨_, locates_outOfRange entry row⟩

theorem toldApart_errors {errors : List RowError} (hImage : mark ∉ entry.image.toList)
    (hLines : (errors.map RowError.line).Nodup)
    (hReasons : ∀ error ∈ errors, mark ∉ error.reason.toList) :
    ToldApart (errors.map (malformedRow entry)) := by
  have hLocates {error : RowError} (hError : error ∈ errors) :=
    locates_malformedRow entry (hReasons error hError)
  refine .map (fun error hError => (hLocates hError).marked hImage) ?_
  apply (List.pairwise_map.mp hLines).imp_of_mem
  intro error other hError hOther hLine
  apply (hLocates hError).differs_of_more_ne (hLocates hOther)
  exact fun hMore => hLine (lineText_injective (List.cons.inj hMore).1)

/-- A label file that cannot be read has no lines. -/
theorem ofKinds_lines (hImage : mark ∉ entry.image.toList) (hLabels : entry.labels.Numbered) :
    OfKinds [.integrityMalformedRow]
      (stateFindings entry ++ entry.labels.errors.map (malformedRow entry)) := by
  unfold stateFindings
  split
  · rename_i reason hState
    rw [hState]
    exact .singleton ((locates_unreadableLabel entry reason).marked hImage) rfl
  · refine ⟨toldApart_errors hImage hLabels.errors hLabels.reasons, ?_⟩
    exact List.forall_mem_map.mpr fun _ _ => List.mem_cons_self

/-- The kinds of findings about entries. -/
def entryIds : List FindingId :=
  [.integrityMissingLabel, .integrityCorruptImage, .integrityMalformedRow,
    .integrityInvalidClassId, .integrityCoordOutOfRange]

theorem ofKinds_entryFindings (hImage : mark ∉ entry.image.toList)
    (hLabels : entry.labels.Numbered) (classCount : Nat) :
    OfKinds entryIds (entryFindings entry classCount) := by
  have hMissing : OfKinds [.integrityMissingLabel]
      (if entry.labels.isMissing then [missingLabel entry] else []) :=
    .ite (.singleton ((locates_missingLabel entry).marked hImage) rfl) (.nil _)
  have hCorrupt : OfKinds [.integrityCorruptImage]
      (entry.imageError.map (corruptImage entry)).toList := by
    apply OfKinds.of_option
    intro a ha
    obtain ⟨reason, -, rfl⟩ := Option.map_eq_some_iff.mp ha
    exact ⟨(locates_corruptImage entry reason).marked hImage, rfl⟩
  have hRows : OfKinds [.integrityInvalidClassId, .integrityCoordOutOfRange]
      (entry.labels.rows.flatMap (rowFindings entry classCount)) :=
    .flatMap (fun row _ => ofKinds_rowFindings hImage classCount row)
      (pairwise_differs_of_rows hLabels.rows fun _ _ => locates_of_mem_rowFindings)
  have hFile := (hMissing.append hCorrupt (by decide)).append (ofKinds_lines hImage hLabels)
    (by decide)
  rw [entryFindings, List.append_assoc _ (stateFindings entry)]
  exact hFile.append hRows (by decide)

theorem locates_of_mem_entryFindings (hLabels : entry.labels.Numbered)
    (h : a ∈ entryFindings entry classCount) : ∃ more, a.Locates entry more := by
  simp only [entryFindings, List.mem_append, List.mem_map, List.mem_flatMap, Option.mem_toList] at h
  obtain (((h | h) | h) | ⟨error, hError, rfl⟩) | ⟨row, _, h⟩ := h
  · split at h
    · obtain rfl := List.mem_singleton.mp h
      exact ⟨_, locates_missingLabel entry⟩
    · cases h
  · obtain ⟨reason, _, rfl⟩ := Option.map_eq_some_iff.mp h
    exact ⟨_, locates_corruptImage entry reason⟩
  · unfold stateFindings at h
    split at h
    · obtain rfl := List.mem_singleton.mp h
      exact ⟨_, locates_unreadableLabel entry _⟩
    · cases h
  · exact ⟨_, locates_malformedRow entry (hLabels.reasons error hError)⟩
  · obtain ⟨more, hLocates⟩ := locates_of_mem_rowFindings h
    exact ⟨_, hLocates⟩

theorem subject_orphanLabel (split : Split) (label : String) :
    (orphanLabel split label).subject = [split.name, label] := rfl

theorem ofKinds_orphans {info : SplitInfo} (hDistinct : info.orphanLabels.Nodup)
    (hNames : ∀ label ∈ info.orphanLabels, mark ∉ label.toList) :
    OfKinds [.integrityOrphanLabel] (info.orphanLabels.map (orphanLabel info.split)) := by
  refine ⟨.map (fun label hLabel => ⟨rfl, ?_⟩) (hDistinct.imp fun hNe _ hSubject => ?_),
    List.forall_mem_map.mpr fun _ _ => List.mem_cons_self⟩
  · rw [subject_orphanLabel, List.forall_mem_cons, List.forall_mem_singleton]
    exact ⟨Split.mark_notMem_name info.split, hNames label hLabel⟩
  · exact hNe (List.cons.inj (List.cons.inj hSubject).2).1

theorem toldApart_findings {index : Index} (h : index.Named) : ToldApart (findings index) := by
  have hEntries : OfKinds entryIds
      (index.entries.flatMap fun entry => entryFindings entry index.classCount) :=
    .flatMap
      (fun entry hMem =>
        ofKinds_entryFindings (h.images entry hMem) (h.labels entry hMem) index.classCount)
      (pairwise_differs_of_entries h.keys fun entry hMem _ =>
        locates_of_mem_entryFindings (h.labels entry hMem))
  have hOrphans : OfKinds [.integrityOrphanLabel]
      (index.splits.flatMap fun info => info.orphanLabels.map (orphanLabel info.split)) := by
    refine .flatMap (fun info hInfo => ofKinds_orphans (h.orphans info hInfo)
      (h.orphanNames info hInfo)) ?_
    apply (List.pairwise_map.mp h.splits).imp
    intro info other hSplit a ha b hb
    obtain ⟨label, -, rfl⟩ := List.mem_map.mp ha
    obtain ⟨label', -, rfl⟩ := List.mem_map.mp hb
    intro _ hSubject
    exact hSplit (Split.name_injective (List.cons.inj hSubject).1)
  exact (hEntries.append hOrphans (by decide)).apart

end Integrity

namespace BoxSanity

open Finding (ToldApart OfKinds)

variable {config : BoxSanityConfig} {entry : IndexEntry} {row : AnnotationRow} {a : Finding}

/-- The kinds of findings about boxes. -/
def boxIds : List FindingId :=
  [.bboxTinyBox, .bboxOversizedBox, .bboxExtremeAspectRatio]

theorem id_boxFinding (id : FindingId) (entry : IndexEntry) (row : AnnotationRow) (text : String)
    (metrics : List (String × Json)) : (boxFinding id entry row text metrics).id = id := by
  rw [boxFinding, Finding.id_ofClass]
  rfl

theorem subject_of_mem_boxIds (h : a.id ∈ boxIds) : a.subject =
    (a.split.map Split.name).toList ++ a.image.toList ++ a.metricTexts "line" := by
  rw [boxIds, List.mem_cons, List.mem_cons, List.mem_singleton] at h
  rcases h with h | h | h <;> rw [Finding.subject, h]

theorem locates_boxFinding {id : FindingId} {text : String} {metrics : List (String × Json)}
    (hId : id ∈ boxIds) (hLine : metrics.lookup "line" = some (.ofNat row.line.toNat)) :
    (boxFinding id entry row text metrics).Locates entry [lineText row.line] := by
  have hKnown : id ≠ .integrityInvalidClassId := by
    rintro rfl
    simp [boxIds] at hId
  rw [boxFinding]
  refine Finding.Locates.ofClass ⟨?_, rfl, ?_⟩ row hKnown
  · rw [subject_of_mem_boxIds hId, Finding.metricTexts_ofNat (n := row.line.toNat)]
    · rfl
    · exact hLine
  · exact List.forall_mem_singleton.mpr (mark_notMem_lineText row.line)

theorem locates_tooMany (config : BoxSanityConfig) (entry : IndexEntry) (count : Nat) :
    (tooMany config entry count).Locates entry [] :=
  ⟨rfl, rfl, List.forall_mem_nil _⟩

theorem locates_tiny (area : Float) :
    (tiny config entry row area).Locates entry [lineText row.line] :=
  locates_boxFinding (by decide) rfl

theorem locates_oversized (area : Float) :
    (oversized config entry row area).Locates entry [lineText row.line] :=
  locates_boxFinding (by decide) rfl

theorem locates_narrow (aspect : Float) :
    (narrow config entry row aspect).Locates entry [lineText row.line] :=
  locates_boxFinding (by decide) rfl

theorem locates_of_mem_rowFindings (h : a ∈ rowFindings config entry row) :
    a.Locates entry [lineText row.line] := by
  simp only [rowFindings, List.mem_append, List.mem_map] at h
  obtain (h | h) | ⟨aspect, _, rfl⟩ := h
  · split at h
    · obtain rfl := List.mem_singleton.mp h
      exact locates_tiny _
    · cases h
  · split at h
    · obtain rfl := List.mem_singleton.mp h
      exact locates_oversized _
    · cases h
  · exact locates_narrow aspect

/-- Every kind occurs at most once in a row. -/
theorem ofKinds_rowFindings (hImage : mark ∉ entry.image.toList) (row : AnnotationRow) :
    OfKinds boxIds (rowFindings config entry row) := by
  have hTiny (area : Float) : OfKinds [.bboxTinyBox]
      (if area < config.minBoxAreaRatioWarn then [tiny config entry row area] else []) :=
    .ite (.singleton ((locates_tiny area).marked hImage) (id_boxFinding ..)) (.nil _)
  have hOversized (area : Float) : OfKinds [.bboxOversizedBox]
      (if config.maxBoxAreaRatioWarn < area then [oversized config entry row area] else []) :=
    .ite (.singleton ((locates_oversized area).marked hImage) (id_boxFinding ..)) (.nil _)
  have hNarrow (aspect : Option Float) : OfKinds [.bboxExtremeAspectRatio]
      (aspect.toList.map (narrow config entry row)) := by
    cases aspect with
    | none => exact .nil _
    | some aspect => exact .singleton ((locates_narrow aspect).marked hImage) (id_boxFinding ..)
  exact ((hTiny _).append (hOversized _) (by decide)).append (hNarrow _) (by decide)

theorem toldApart_entryFindings (hImage : mark ∉ entry.image.toList)
    (hLabels : entry.labels.Numbered) : ToldApart (entryFindings config entry) := by
  have hMany (count : Nat) : OfKinds [.bboxTooManyPerImage]
      (if config.maxBoxesPerImageWarn < count then [tooMany config entry count] else []) :=
    .ite (.singleton ((locates_tooMany config entry count).marked hImage) rfl) (.nil _)
  have hRows : OfKinds boxIds (entry.labels.rows.flatMap (rowFindings config entry)) :=
    .flatMap (fun row _ => ofKinds_rowFindings hImage row)
      (pairwise_differs_of_rows hLabels.rows fun _ _ h => ⟨[], locates_of_mem_rowFindings h⟩)
  exact ((hMany _).append hRows (by decide)).apart

theorem toldApart_findings {index : Index} (h : index.Named) : ToldApart (findings config index) := by
  refine .flatMap (fun entry hEntry =>
    toldApart_entryFindings (h.images entry hEntry) (h.labels entry hEntry)) ?_
  apply pairwise_differs_of_entries h.keys
  intro entry _ a ha
  rcases List.mem_append.mp ha with ha | ha
  · simp only [List.mem_ite_nil_right, List.mem_singleton] at ha
    obtain ⟨-, rfl⟩ := ha
    exact ⟨[], locates_tooMany config entry _⟩
  · obtain ⟨row, -, ha⟩ := List.mem_flatMap.mp ha
    exact ⟨_, locates_of_mem_rowFindings ha⟩

end BoxSanity

end DatasetAudit
