import DatasetAudit.Proofs.Finding.Order
import DatasetAudit.Proofs.Text.Basic
import DatasetAudit.Report.Basic
import DatasetAudit.Report.Text
import Mathlib.Data.List.Dedup
import Mathlib.Data.List.Nodup

/-! The explanation of a run. Its tallies are exact, one for each kind of finding that occurs, and
either list shows the first of them in an order in which no two kinds tie. So the lists say the same
of the same findings in any order, and no kind that is left out comes before one that is listed. -/

namespace DatasetAudit

namespace Severity

instance : Std.IsLinearOrder Severity where
  le_refl a := Nat.le_refl a.rank
  le_trans _ _ _ := Nat.le_trans
  le_antisymm a b := by cases a <;> cases b <;> decide
  le_total a b := Nat.le_total a.rank b.rank

instance : Std.LawfulOrderMax Severity :=
  .of_max_le_iff (fun a b c => by cases a <;> cases b <;> cases c <;> decide)
    fun a b => by cases a <;> cases b <;> decide

end Severity

namespace FindingId

theorem mem_all (id : FindingId) : id ∈ all := by
  cases id <;> decide

theorem all_nodup : all.Nodup := by decide

end FindingId

/-- The kinds of findings that occur, each once. -/
def kinds (findings : List Finding) : List FindingId :=
  (findings.map (·.id)).dedup

variable {findings others : List Finding}

namespace Tally

/-- What a tally says about some findings is so: its kind occurs as often as that, and its severity
is the highest of its kind. -/
structure Exact (findings : List Finding) (tally : Tally) : Prop where
  count : tally.count = findings.countP fun finding => finding.id = tally.id
  attained : ∃ finding ∈ findings, finding.id = tally.id ∧ finding.severity = tally.severity
  highest : ∀ finding ∈ findings, finding.id = tally.id → finding.severity ≤ tally.severity

/-- More findings come first, and of as many the first name. -/
def MoreFrequent (a b : Tally) : Prop :=
  b.count < a.count ∨ a.count = b.count ∧ a.id.name < b.id.name

/-- The higher severity comes first, and of one severity the first name. -/
def MoreSerious (a b : Tally) : Prop :=
  b.severity.rank < a.severity.rank ∨ a.severity = b.severity ∧ a.id.name < b.id.name

section Exact

variable {tally : Tally}

theorem mem_ofFindings_iff : tally ∈ ofFindings findings ↔ tally.Exact findings := by
  have hGroup (id : FindingId) (severity : Severity) :
      severity ∈ (findings.filter fun finding => finding.id = id).map (·.severity) ↔
        ∃ finding ∈ findings, finding.id = id ∧ finding.severity = severity := by
    simp [and_assoc]
  simp only [ofFindings, List.mem_filterMap, Option.map_eq_some_iff, List.max?_eq_some_iff, hGroup]
  constructor
  · rintro ⟨id, -, severity, ⟨hAttained, hHighest⟩, rfl⟩
    exact ⟨List.countP_eq_length_filter.symm, hAttained,
      fun finding hMem hId => hHighest _ ⟨finding, hMem, hId, rfl⟩⟩
  · rintro ⟨hCount, hAttained, hHighest⟩
    refine ⟨tally.id, FindingId.mem_all _, tally.severity, ⟨hAttained, ?_⟩, ?_⟩
    · rintro _ ⟨finding, hMem, hId, rfl⟩
      exact hHighest finding hMem hId
    · rw [← List.countP_eq_length_filter, ← hCount]

theorem ids_nodup (findings : List Finding) : ((ofFindings findings).map (·.id)).Nodup := by
  rw [List.Nodup, List.pairwise_map, ofFindings, List.pairwise_filterMap]
  apply FindingId.all_nodup.imp
  intro id other hNe tally hTally tally' hTally'
  simp only [Option.map_eq_some_iff] at hTally hTally'
  obtain ⟨_, _, rfl⟩ := hTally
  obtain ⟨_, _, rfl⟩ := hTally'
  exact hNe

/-- Every kind that occurs has a tally. -/
theorem exists_exact {finding : Finding} (h : finding ∈ findings) :
    ∃ tally : Tally, tally.Exact findings ∧ tally.id = finding.id := by
  have hGroup : finding ∈ findings.filter fun other => other.id = finding.id :=
    List.mem_filter.mpr ⟨h, decide_eq_true rfl⟩
  cases hMax : ((findings.filter fun other => other.id = finding.id).map (·.severity)).max? with
  | none =>
      rw [List.max?_eq_none_iff, List.map_eq_nil_iff] at hMax
      exact absurd (hMax ▸ hGroup) List.not_mem_nil
  | some severity =>
      have hTally : (⟨finding.id, _, severity⟩ : Tally) ∈ ofFindings findings :=
        List.mem_filterMap.mpr ⟨finding.id, FindingId.mem_all _, congrArg (Option.map _) hMax⟩
      exact ⟨_, mem_ofFindings_iff.mp hTally, rfl⟩

theorem length_ofFindings (findings : List Finding) :
    (ofFindings findings).length = (kinds findings).length := by
  have hPerm : ((ofFindings findings).map (·.id)).Perm (kinds findings) := by
    apply (List.perm_ext_iff_of_nodup (ids_nodup findings) (List.nodup_dedup _)).mpr
    intro id
    rw [List.mem_dedup, List.mem_map, List.mem_map]
    constructor
    · rintro ⟨tally, hTally, rfl⟩
      obtain ⟨finding, hMem, hId, -⟩ := (mem_ofFindings_iff.mp hTally).attained
      exact ⟨finding, hMem, hId⟩
    · rintro ⟨finding, hMem, rfl⟩
      obtain ⟨tally, hExact, hId⟩ := exists_exact hMem
      exact ⟨tally, mem_ofFindings_iff.mpr hExact, hId⟩
  rw [← List.length_map, hPerm.length_eq]

/-- The tallies do not depend on the order of the findings. -/
theorem ofFindings_eq_of_perm (h : findings.Perm others) :
    ofFindings findings = ofFindings others := by
  apply List.filterMap_congr
  intro id _
  have hGroup := h.filter fun finding => finding.id = id
  have hMax : ((findings.filter fun finding => finding.id = id).map (·.severity)).max? =
      ((others.filter fun finding => finding.id = id).map (·.severity)).max? := by
    ext severity
    simp only [List.max?_eq_some_iff, (hGroup.map _).mem_iff]
  simp only [hMax, hGroup.length_eq]

end Exact

/-- Some tallies are the first of all in an order, as many as there are up to a bound. -/
structure Lists (findings : List Finding) (before : Tally → Tally → Prop) (top : Nat)
    (listed : List Tally) : Prop where
  length : listed.length = min top (kinds findings).length
  exact : ∀ tally ∈ listed, tally.Exact findings
  ordered : listed.Pairwise before
  first : ∀ tally, tally.Exact findings → tally ∉ listed → ∀ other ∈ listed, before other tally

section Lists

variable {cmp : Tally → Tally → Ordering} {before : Tally → Tally → Prop} {top : Nat}
  {listed : List Tally} {tally other : Tally}

/-- A comparison in which no two kinds tie sorts the tallies strictly. -/
theorem pairwise_sort [Std.TransCmp cmp] (hBefore : ∀ a b, cmp a b = .lt → before a b)
    (hTie : ∀ a b, cmp a b = .eq → a.id = b.id) (findings : List Finding) :
    ((ofFindings findings).mergeSort fun a b => (cmp a b).isLE).Pairwise before := by
  have hIds := ids_nodup findings
  have hPerm := List.mergeSort_perm (ofFindings findings) fun a b => (cmp a b).isLE
  rw [← (hPerm.map (·.id)).nodup_iff, List.Nodup, List.pairwise_map] at hIds
  apply ((SameTies.pairwise_sort _).and hIds).imp
  rintro a b ⟨hLE, hNe⟩
  cases hCmp : cmp a b with
  | lt => exact hBefore a b hCmp
  | eq => exact absurd (hTie a b hCmp) hNe
  | gt => simp [hCmp] at hLE

theorem lists_take [Std.TransCmp cmp] (hBefore : ∀ a b, cmp a b = .lt → before a b)
    (hTie : ∀ a b, cmp a b = .eq → a.id = b.id) (findings : List Finding) (top : Nat) :
    Lists findings before top
      (((ofFindings findings).mergeSort fun a b => (cmp a b).isLE).take top) := by
  have hSorted := pairwise_sort hBefore hTie findings
  have hMem (tally : Tally) : tally ∈ (ofFindings findings).mergeSort (fun a b => (cmp a b).isLE) ↔
      tally.Exact findings := by
    rw [List.mem_mergeSort, mem_ofFindings_iff]
  have hLength : ((ofFindings findings).mergeSort fun a b => (cmp a b).isLE).length =
      (ofFindings findings).length := List.length_mergeSort _
  generalize (ofFindings findings).mergeSort (fun a b => (cmp a b).isLE) = sorted at *
  refine ⟨?_, ?_, hSorted.sublist (List.take_sublist top sorted), ?_⟩
  · rw [List.length_take, hLength, length_ofFindings]
  · intro tally hTally
    exact (hMem tally).mp (List.mem_of_mem_take hTally)
  · intro tally hExact hNot other hOther
    -- What is not taken stands behind what is.
    have hParts := List.take_append_drop top sorted
    rw [← hParts, List.pairwise_append] at hSorted
    have hAll := (hMem tally).mpr hExact
    rw [← hParts, List.mem_append] at hAll
    exact hSorted.2.2 other hOther tally (hAll.resolve_left hNot)

theorem Lists.notMem (h : ∀ tally ∈ listed, tally.id ≠ other.id) : other ∉ listed :=
  fun hMem => h other hMem rfl

/-- No kind that is left out is more frequent than one that is listed. -/
theorem Lists.count_le (h : Lists findings MoreFrequent top listed) {id : FindingId}
    (hLeft : ∀ tally ∈ listed, tally.id ≠ id) (hTally : tally ∈ listed) :
    findings.countP (fun finding => finding.id = id) ≤ tally.count := by
  by_cases hOccurs : ∃ finding ∈ findings, finding.id = id
  · obtain ⟨finding, hFinding, rfl⟩ := hOccurs
    obtain ⟨other, hExact, hId⟩ := exists_exact hFinding
    rw [← hId] at hLeft ⊢
    rw [← hExact.count]
    rcases h.first other hExact (notMem hLeft) tally hTally with hMore | ⟨hSame, -⟩
    · exact Nat.le_of_lt hMore
    · exact Nat.le_of_eq hSame.symm
  · have hNone : findings.countP (fun finding => finding.id = id) = 0 := by
      rw [List.countP_eq_zero]
      intro finding hFinding hId
      exact hOccurs ⟨finding, hFinding, of_decide_eq_true hId⟩
    rw [hNone]
    exact Nat.zero_le _

/-- No kind that is left out is more serious than one that is listed. -/
theorem Lists.severity_le (h : Lists findings MoreSerious top listed) {finding : Finding}
    (hFinding : finding ∈ findings) (hLeft : ∀ tally ∈ listed, tally.id ≠ finding.id)
    (hTally : tally ∈ listed) : finding.severity ≤ tally.severity := by
  obtain ⟨other, hExact, hId⟩ := exists_exact hFinding
  have hHighest := hExact.highest finding hFinding hId.symm
  rw [← hId] at hLeft
  rcases h.first other hExact (notMem hLeft) tally hTally with hMore | ⟨hSame, -⟩
  · exact Nat.le_trans hHighest (Nat.le_of_lt hMore)
  · exact hSame ▸ hHighest

end Lists

section Orders

variable {a b : Tally}

instance : Std.TransCmp byCount :=
  have : Std.TransCmp fun a b : Tally => compare b.count a.count :=
    inferInstanceAs (Std.TransCmp fun a b => compareOn count b a)
  inferInstanceAs (Std.TransCmp (compareLex _ (compareOn _)))

instance : Std.TransCmp bySeverity :=
  have : Std.TransCmp fun a b : Tally => compare b.severity a.severity :=
    inferInstanceAs (Std.TransCmp fun a b => compareOn severity b a)
  inferInstanceAs (Std.TransCmp (compareLex _ (compareOn _)))

theorem name_lt_of_compareOn (h : compareOn (·.id.name) a b = .lt) : a.id.name < b.id.name :=
  compareOfLessAndEq_eq_lt.mp h

theorem moreFrequent_of_lt (h : byCount a b = .lt) : MoreFrequent a b := by
  rw [byCount, compareLex, Ordering.then_eq_lt, Nat.compare_eq_lt, Nat.compare_eq_eq] at h
  exact h.imp_right fun ⟨hCount, hName⟩ => ⟨hCount.symm, name_lt_of_compareOn hName⟩

theorem moreSerious_of_lt (h : bySeverity a b = .lt) : MoreSerious a b := by
  rw [bySeverity, compareLex, Ordering.then_eq_lt, Std.LawfulEqCmp.compare_eq_iff_eq] at h
  exact h.imp Nat.compare_eq_lt.mp fun ⟨hSeverity, hName⟩ =>
    ⟨hSeverity.symm, name_lt_of_compareOn hName⟩

/-- Tallies that tie by name, too, are of one kind. -/
theorem id_eq_of_tie {first : Tally → Tally → Ordering}
    (h : compareLex first (compareOn (·.id.name)) a b = .eq) : a.id = b.id := by
  rw [compareLex_eq_eq] at h
  exact FindingId.name_injective (Std.LawfulEqCmp.eq_of_compare h.2)

end Orders

section Lines

theorem notMem_filler (width : Nat) (text : String) : '\n' ∉ (Text.filler width text).toList := by
  rw [Text.filler, String.toList_ofList, List.mem_replicate]
  exact fun h => absurd h.2 (by decide)

theorem notMem_id (id : FindingId) : '\n' ∉ id.name.toList ∧ '\n' ∉ id.entry.title.toList ∧
    '\n' ∉ id.entry.suggestedAction.toList := by
  cases id <;>
    exact ⟨Text.notMem_ofList (by decide), Text.notMem_ofList (by decide),
      Text.notMem_ofList (by decide)⟩

theorem notMem_severity (severity : Severity) : '\n' ∉ severity.name.toList := by
  cases severity <;> exact Text.notMem_ofList (by decide)

theorem notMem_countLine (tally : Tally) : '\n' ∉ tally.countLine.toList := by
  have hCount := Text.notMem_toDigits (c := '\n') rfl tally.count
  simp [countLine, Text.alignLeft, Text.alignRight, toString, hCount, notMem_filler,
    (notMem_id _).1, notMem_severity]

theorem notMem_actionLine (tally : Tally) : '\n' ∉ tally.actionLine.toList := by
  obtain ⟨hName, hTitle, hAction⟩ := notMem_id tally.id
  simp [actionLine, toString, hName, hTitle, hAction, notMem_severity]

end Lines

end Tally

/-- The line with the result of a run. -/
def Summary.resultLine (summary : Summary) : String :=
  s!"Run {summary.run.runId}: {summary.totals.findings} findings " ++
    s!"[{summary.totals.bySeverity.text}], gate {gateWord summary.totals.buildFailed}"

open Tally

/-- What is explained of a run with findings, in lines of which each kind has one to itself in each
list. -/
structure Explains (summary : Summary) (flags : Flags) (top : Nat)
    (frequent serious : List Tally) : Prop where
  text : explain summary flags top = Text.ofLines
    (summary.resultLine :: "Top findings:" :: frequent.map countLine ++
      "Suggested actions:" :: serious.map actionLine)
  /-- A tally has one line in either list. -/
  plain : ∀ tally : Tally, '\n' ∉ tally.countLine.toList ∧ '\n' ∉ tally.actionLine.toList
  byCount : Lists flags.findings MoreFrequent top frequent
  bySeverity : Lists flags.findings MoreSerious top serious
  /-- No kind is left out of the first list that is more frequent than one in it. -/
  rare : ∀ id, (∀ tally ∈ frequent, tally.id ≠ id) → ∀ tally ∈ frequent,
    flags.findings.countP (fun finding => finding.id = id) ≤ tally.count
  /-- No kind is left out of the second list that is more serious than one in it. -/
  mild : ∀ finding ∈ flags.findings, (∀ tally ∈ serious, tally.id ≠ finding.id) →
    ∀ tally ∈ serious, finding.severity ≤ tally.severity
  /-- The findings may come in any order. -/
  arrival : ∀ others : Flags, others.findings.Perm flags.findings →
    explain summary others top = explain summary flags top

theorem explain_eq_of_perm (summary : Summary) (top : Nat) {flags others : Flags}
    (h : others.findings.Perm flags.findings) :
    explain summary others top = explain summary flags top := by
  simp only [explain, ofFindings_eq_of_perm h]

/-- Findings of two kinds: the frequent one occurs with two severities, the other is critical. -/
def mixedFlags : Flags where
  schemaVersion := schemaVersion
  findings :=
    [{ Finding.ofCatalog .bboxTinyBox "tiny box" "a" with severity := .low },
      .ofCatalog .leakageExactTrainVal "same image" "b", .ofCatalog .bboxTinyBox "tiny box" "c"]

/-- The summary of a run that found them. -/
def mixedSummary : Summary where
  schemaVersion := schemaVersion
  run := .ofConfig "20260101_000000" "t0" "t1" 0 {}
  dataset := ⟨"data", none, fun _ => none, ⟨0, []⟩⟩
  checks _ := none
  totals := Report.totals {} [] mixedFlags.findings

end DatasetAudit
