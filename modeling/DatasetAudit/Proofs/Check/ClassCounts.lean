import DatasetAudit.Proofs.Check.Integrity
import DatasetAudit.Proofs.Check.Leakage
import DatasetAudit.Proofs.Distribution.Counts
import DatasetAudit.Proofs.Index.Sample

/-! Rows are either counted or flagged. The class distribution and the integrity check go through the
same rows on their own, and what one of them takes for a class the other does not flag. What is said
about rare classes and about the largest class follows from the numbers of rows. -/

namespace DatasetAudit

/-- A distribution that holds the numbers of rows of the classes, in all and split by split. -/
structure Distribution.CountsRows (index : Index) (distribution : Distribution) : Prop where
  classes : distribution.total.counts.length = index.classCount
  total : ∀ c < index.classCount, distribution.total.count c = classRows index.entries c
  ordered : Ascending (·.1) distribution.perSplit
  splits : ∀ split, (∃ histogram, (split, histogram) ∈ distribution.perSplit) ↔
    ∃ entry ∈ index.entries, entry.split = split
  perSplit : ∀ part ∈ distribution.perSplit, part.2.counts.length = index.classCount ∧
    ∀ c < index.classCount, part.2.count c = classRows (index.entriesIn part.1) c
  sum : ∀ c < index.classCount,
    (distribution.perSplit.map fun part => part.2.count c).sum = distribution.total.count c

/-- Findings that name the classes with fewer rows than the limit, each once and in order, and as a
dominant class none but the first of those with the most rows. -/
structure ClassBalance.Weighs (index : Index) (config : ClassDistributionConfig)
    (findings : List Finding) : Prop where
  rare : ((findings.filter fun f => f.id = .classLowSupport).map fun f =>
      (f.classId, f.metric? "count", f.fingerprint)) =
    ((List.range index.classCount).filter fun c =>
      classRows index.entries c < config.minInstancesPerClassWarn.toNat).map fun c =>
        (some (Int64.ofNat c), some (Json.ofNat (classRows index.entries c)),
          fingerprint .classLowSupport [toString c])
  dominant : ∀ f ∈ findings, f.id = .classImbalanceHigh →
    ∃ c : Nat, f.classId = some (Int64.ofNat c) ∧ (Int64.ofNat c).toInt = c ∧
      IsFirstLargest (classRows index.entries) index.classCount c

variable {index : Index}

theorem Distribution.countsRows_ofIndex (hRows : (rowsOf index.entries).length < UInt64.size) :
    (ofIndex index).CountsRows index := by
  have hCount {c : Nat} (hClass : c < index.classCount) :
      (ofIndex index).total.count c = classRows index.entries c :=
    ClassHistogram.count_histogramOf hRows hClass
  have hPart : ∀ part ∈ (ofIndex index).perSplit, ∀ c < index.classCount,
      part.2.count c = classRows (index.entriesIn part.1) c := by
    rintro ⟨split, histogram⟩ hPart c hClass
    obtain ⟨-, rfl⟩ := mem_perSplit_ofIndex.mp hPart
    exact ClassHistogram.count_histogramOf
      ((length_rowsOf_entriesIn_le index split).trans_lt hRows) hClass
  refine ⟨ClassHistogram.length_counts_histogramOf _ _, fun c => hCount,
    perSplit_ofIndex_ascending index, fun split => ?_, fun part hMem => ⟨?_, hPart part hMem⟩,
    fun c hClass => ?_⟩
  · simp [mem_perSplit_ofIndex]
  · obtain ⟨-, hHistogram⟩ := mem_perSplit_ofIndex.mp hMem
    rw [hHistogram, ClassHistogram.length_counts_histogramOf]
  · rw [hCount hClass, ← sum_classRows_perSplit, List.map_congr_left fun part hMem =>
      hPart part hMem c hClass]

/-- What is counted and what is flagged are all rows. -/
theorem Distribution.total_add_countP (hRows : (rowsOf index.entries).length < UInt64.size) :
    (ofIndex index).total.total.toNat +
      (Integrity.findings index).countP (fun f => f.id = .integrityInvalidClassId) =
        (rowsOf index.entries).length := by
  have hKnown : ((List.range index.classCount).map (classRows index.entries)).sum =
      (rowsOf index.entries).countP fun row =>
        Integrity.isKnownClass index.classCount row.classId := by
    rw [ClassHistogram.sum_classRows]
    simp [Integrity.isKnownClass]
  have hTotal : (ofIndex index).total.total.toNat = (rowsOf index.entries).countP fun row =>
      Integrity.isKnownClass index.classCount row.classId := by
    rw [← hKnown]
    refine (congrArg UInt64.toNat (ClassHistogram.total_histogramOf _ _)).trans ?_
    apply UInt64.toNat_ofNat_of_lt'
    rw [hKnown]
    exact List.countP_le_length.trans_lt hRows
  rw [hTotal, Integrity.countP_unknownClass]
  have hParts := List.length_eq_countP_add_countP (l := rowsOf index.entries) fun row =>
    Integrity.isKnownClass index.classCount row.classId
  simpa [rowsOf] using hParts.symm

namespace ClassBalance

variable {config : ClassDistributionConfig}

theorem lowSupport_ofIndex (hRows : (rowsOf index.entries).length < UInt64.size) (limit : UInt64) :
    (Distribution.ofIndex index).total.lowSupport limit =
      ((List.range index.classCount).filter fun c =>
        classRows index.entries c < limit.toNat).map fun c =>
          (c, UInt64.ofNat (classRows index.entries c)) := by
  refine (ClassHistogram.lowSupport_eq (ClassHistogram.counts_histogramOf _ _) limit).trans ?_
  simp only [UInt64.lt_iff_toNat_lt, toNat_ofNat_classRows hRows]

/-- A class that occurs has a number that fits into the field for it. -/
theorem toInt_ofNat_of_classRows_pos {entries : List IndexEntry} {c : Nat}
    (h : 0 < classRows entries c) : (Int64.ofNat c).toInt = c := by
  obtain ⟨row, -, hClass⟩ := List.countP_pos_iff.mp h
  have hClass : row.classId.toInt = (c : Int) := of_decide_eq_true hClass
  rw [← Int64.ofInt_eq_ofNat, ← hClass, Int64.ofInt_toInt]

section Kinds

variable {f : Finding}

theorem id_of_mem_imbalance? {total : ClassHistogram} (h : f ∈ imbalance? config index total) :
    f.id = .classImbalanceHigh := by
  obtain ⟨_, _, rfl⟩ := Option.map_eq_some_iff.mp h
  rfl

theorem id_lowSupport (config : ClassDistributionConfig) (index : Index) (c : Nat)
    (count : UInt64) : (lowSupport config index c count).id = .classLowSupport :=
  rfl

theorem id_of_mem_drift? {distribution : Distribution} {target : Split}
    (h : f ∈ drift? config distribution target) : f.id = .classSplitDrift := by
  obtain ⟨_, _, rfl⟩ := Option.map_eq_some_iff.mp h
  rfl

/-- The findings about rare classes are those made for the classes below the limit. -/
theorem filter_findings_lowSupport (config : ClassDistributionConfig) (index : Index) :
    (findings config index).filter (fun f => f.id = .classLowSupport) =
      ((Distribution.ofIndex index).total.lowSupport config.minInstancesPerClassWarn).map
        fun part => lowSupport config index part.1 part.2 := by
  have hImbalance : (imbalance? config index (Distribution.ofIndex index).total).toList.filter
      (fun f => f.id = .classLowSupport) = [] := by
    rw [List.filter_eq_nil_iff]
    intro f hFinding
    simp [id_of_mem_imbalance? (Option.mem_toList.mp hFinding)]
  have hDrift : (Split.evaluation.filterMap (drift? config (Distribution.ofIndex index))).filter
      (fun f => f.id = .classLowSupport) = [] := by
    rw [List.filter_eq_nil_iff]
    intro f hFinding
    obtain ⟨target, -, hFinding⟩ := List.mem_filterMap.mp hFinding
    simp [id_of_mem_drift? hFinding]
  rw [findings, List.filter_append, List.filter_append, hImbalance, hDrift, List.nil_append,
    List.append_nil, List.filter_eq_self]
  intro f hFinding
  obtain ⟨part, -, rfl⟩ := List.mem_map.mp hFinding
  exact decide_eq_true (id_lowSupport config index part.1 part.2)

/-- A finding about a dominant class is made for the dominant class of all splits together. -/
theorem exists_dominant_of_mem_findings (h : f ∈ findings config index)
    (hId : f.id = .classImbalanceHigh) :
    ∃ c share, (Distribution.ofIndex index).total.dominant? = some (c, share) ∧
      f.classId = findingClass c := by
  simp only [findings, List.mem_append] at h
  rcases h with (hImbalance | hRare) | hDrift
  · obtain ⟨⟨c, share⟩, hDominant, rfl⟩ :=
      Option.map_eq_some_iff.mp (Option.mem_toList.mp hImbalance)
    exact ⟨c, share, (Option.filter_eq_some_iff.mp hDominant).1, rfl⟩
  · obtain ⟨part, -, rfl⟩ := List.mem_map.mp hRare
    cases (id_lowSupport config index part.1 part.2).symm.trans hId
  · obtain ⟨target, -, hDrift⟩ := List.mem_filterMap.mp hDrift
    cases (id_of_mem_drift? hDrift).symm.trans hId

end Kinds

theorem weighs_findings (hRows : (rowsOf index.entries).length < UInt64.size) :
    Weighs index config (findings config index) where
  rare := by
    rw [filter_findings_lowSupport, lowSupport_ofIndex hRows, List.map_map, List.map_map]
    apply List.map_congr_left
    intro c _
    have hCount := toNat_ofNat_classRows hRows c
    simp only [Function.comp_apply, lowSupport, findingClass, Finding.metric?, hCount]
    rfl
  dominant := by
    intro f hFinding hId
    obtain ⟨c, share, hDominant, hClass⟩ := exists_dominant_of_mem_findings hFinding hId
    obtain ⟨hLargest, hSome⟩ := ClassHistogram.isFirstLargest_of_dominant? hRows hDominant
    exact ⟨c, hClass, toInt_ofNat_of_classRows_pos hSome, hLargest⟩

theorem lacksClasses_eq_false_iff : lacksClasses index = false ↔
    (index.classCount = 0 → rowsOf index.entries = []) := by
  simp [lacksClasses, rowsOf]

end ClassBalance

/-- The class distribution and the integrity check share the rows between them, and the findings
about rare and dominant classes say what the numbers of rows say. -/
theorem rows_counted_or_flagged (index : Index)
    (hRows : (rowsOf index.entries).length < UInt64.size) :
    (Distribution.ofIndex index).CountsRows index ∧ ∀ config clusters,
      (∃ flagged, CheckKind.integrity.evaluate index config clusters = .ok flagged ∧
        (Distribution.ofIndex index).total.total.toNat +
          flagged.countP (fun f => f.id = .integrityInvalidClassId) =
            (rowsOf index.entries).length) ∧
      ((∃ findings, CheckKind.classDistribution.evaluate index config clusters = .ok findings) ↔
        (index.classCount = 0 → rowsOf index.entries = [])) ∧
      ∀ findings, CheckKind.classDistribution.evaluate index config clusters = .ok findings →
        ClassBalance.Weighs index config.checks.classDistribution findings := by
  refine ⟨Distribution.countsRows_ofIndex hRows, fun config clusters =>
    ⟨⟨_, rfl, Distribution.total_add_countP hRows⟩, ?_, ?_⟩⟩
  · rw [← ClassBalance.lacksClasses_eq_false_iff, CheckKind.evaluate]
    cases ClassBalance.lacksClasses index <;> simp
  · intro findings hFindings
    simp only [CheckKind.evaluate] at hFindings
    split at hFindings
    · cases hFindings
    · obtain rfl := Except.ok.inj hFindings
      exact ClassBalance.weighs_findings hRows

/-- An entry with a row of each of some classes. -/
def IndexEntry.ofClasses (split : Split) (image : String) (classes : List Int64) : IndexEntry :=
  { IndexEntry.ofHashes split image none none with
    labels := .parsed (classes.map fun classId => ⟨1, classId, ⟨0, 0, 0, 0⟩, none⟩) [] }

/-- Three classes, one of which has no row, and two rows of no class. -/
def graded : Index :=
  { Index.ofEntries [.ofClasses .train "a.png" [0, 2, 7], .ofClasses .val "b.png" [-1, 2]] with
    classNames := ["a", "b", "c"] }

/-- A class is rare below two rows. -/
def pairsWanted : Config where
  checks := { classDistribution := { minInstancesPerClassWarn := 2 } }

theorem graded_rows : (rowsOf graded.entries).length < UInt64.size ∧
    (List.range 3).map (Distribution.ofIndex graded).total.count = [1, 0, 2] ∧
    (Integrity.findings graded).countP (fun f => f.id = .integrityInvalidClassId) = 2 ∧
    (Distribution.ofIndex graded).total.total.toNat = 3 ∧ ∃ findings,
      CheckKind.classDistribution.evaluate graded pairsWanted ⟨[], none⟩ = .ok findings ∧
        ((findings.filter fun f => f.id = .classLowSupport).map fun f =>
          (f.classId, f.metric? "count")) =
            [(some 0, some (Json.ofNat 1)), (some 1, some (Json.ofNat 0))] ∧
        ∀ f ∈ findings, f.id = .classImbalanceHigh → f.classId = some 2 := by
  have hRows : (rowsOf graded.entries).length < UInt64.size := by decide
  have hClasses : (List.range 3).map (classRows graded.entries) = [1, 0, 2] := by decide
  obtain ⟨hCounts, hChecks⟩ := rows_counted_or_flagged graded hRows
  obtain ⟨⟨flagged, hFlagged, hSum⟩, hSucceeds, hWeighs⟩ := hChecks pairsWanted ⟨[], none⟩
  obtain rfl := Except.ok.inj hFlagged
  obtain ⟨findings, hFindings⟩ := hSucceeds.mpr nofun
  have hWeighed := hWeighs findings hFindings
  have hUnknown : (Integrity.findings graded).countP
      (fun f => f.id = .integrityInvalidClassId) = 2 := by
    rw [Integrity.countP_unknownClass]
    decide
  have hLength : (rowsOf graded.entries).length = 5 := by decide
  refine ⟨hRows, ?_, hUnknown, by omega, findings, hFindings, ?_, ?_⟩
  · rw [← hClasses]
    exact List.map_congr_left fun c hClass => hCounts.total c (List.mem_range.mp hClass)
  · have hRare := congrArg (List.map fun (classId, count, _) => (classId, count)) hWeighed.rare
    rw [List.map_map, List.map_map] at hRare
    exact hRare
  · intro f hFinding hId
    obtain ⟨c, hClassId, -, hLargest⟩ := hWeighed.dominant f hFinding hId
    have hMost : classRows graded.entries 2 ≤ classRows graded.entries c :=
      hLargest.largest 2 (by decide)
    have hClass : c < 3 := hLargest.isClass
    have hTwo : c = 2 := by
      revert hMost
      interval_cases c <;> decide
    rw [hClassId, hTwo]
    rfl

end DatasetAudit
