import DatasetAudit.Diff.Basic
import DatasetAudit.Proofs.Grouping
import DatasetAudit.Proofs.Report.Counts

/-! A comparison parts the fingerprints of two runs. Each part is fixed by the fingerprints that it
takes and by the first finding with each of them, and so the other laws follow: the runs may change
places, a run does not differ from itself, and the order of findings counts only where different
findings have one fingerprint. -/

namespace DatasetAudit

/-- The first of some findings with a fingerprint. -/
def Finding.first? (findings : List Finding) (fingerprint : String) : Option Finding :=
  findings.find? fun finding => finding.fingerprint = fingerprint

/-- Only equal findings have equal fingerprints. -/
def Finding.Determined (findings : List Finding) : Prop :=
  ∀ a ∈ findings, ∀ b ∈ findings, a.fingerprint = b.fingerprint → a = b

namespace Finding

variable {findings others : List Finding} {finding : Finding} {fingerprint : String}

theorem first?_eq_some (h : first? findings fingerprint = some finding) :
    finding ∈ findings ∧ finding.fingerprint = fingerprint := by
  have hSame := List.find?_some h
  exact ⟨List.mem_of_find?_eq_some h, of_decide_eq_true hSame⟩

theorem exists_first? : (∃ finding, first? findings fingerprint = some finding) ↔
    fingerprint ∈ findings.map (·.fingerprint) := by
  rw [← Option.isSome_iff_exists, first?, List.find?_isSome, List.mem_map]
  simp only [decide_eq_true_eq]

/-- The order of findings that their fingerprints determine has no effect on the first ones. -/
theorem Determined.first?_eq_of_perm (h : Determined findings) (hPerm : findings.Perm others) :
    first? findings = first? others := by
  funext fingerprint
  ext finding
  have hFirst (items : List Finding) (hItems : Determined items) :
      first? items fingerprint = some finding ↔
        finding ∈ items ∧ finding.fingerprint = fingerprint := by
    refine ⟨first?_eq_some, ?_⟩
    rintro ⟨hMem, hSame⟩
    obtain ⟨first, hSome⟩ := exists_first?.mpr (List.mem_map.mpr ⟨finding, hMem, hSame⟩)
    obtain ⟨hFirstMem, hFirstSame⟩ := first?_eq_some hSome
    rw [hSome, hItems first hFirstMem finding hMem (hFirstSame.trans hSame.symm)]
  have hOthers : Determined others := fun a ha b hb =>
    h a (hPerm.mem_iff.mpr ha) b (hPerm.mem_iff.mpr hb)
  rw [hFirst findings h, hFirst others hOthers, hPerm.mem_iff]

end Finding

namespace DiffPart

/-- The part takes from some findings exactly the fingerprints that satisfy a condition, in
ascending order and none twice. It has the first finding with each of them, and counts the findings
it has. -/
structure Selects (part : DiffPart) (findings : List Finding) (condition : String → Prop) : Prop where
  mem_fingerprints : ∀ fingerprint, fingerprint ∈ part.fingerprints ↔
    fingerprint ∈ findings.map (·.fingerprint) ∧ condition fingerprint
  ascending : Ascending (·.fingerprint) part.findings
  first : ∀ finding ∈ part.findings,
    Finding.first? findings finding.fingerprint = some finding
  counts : part.counts = .ofFindings part.findings

namespace Selects

variable {part other : DiffPart} {findings others : List Finding} {condition : String → Prop}

theorem mem_findings (h : part.Selects findings condition) {finding : Finding} :
    finding ∈ part.findings ↔
      Finding.first? findings finding.fingerprint = some finding ∧ condition finding.fingerprint := by
  constructor
  · intro hMem
    have hTaken : finding.fingerprint ∈ part.fingerprints := List.mem_map_of_mem hMem
    exact ⟨h.first finding hMem, ((h.mem_fingerprints _).mp hTaken).2⟩
  · rintro ⟨hFirst, hCondition⟩
    have hTaken : finding.fingerprint ∈ part.fingerprints :=
      (h.mem_fingerprints _).mpr ⟨Finding.exists_first?.mp ⟨finding, hFirst⟩, hCondition⟩
    obtain ⟨same, hSame, hFingerprint⟩ := List.mem_map.mp hTaken
    have hFirstSame := h.first same hSame
    rw [hFingerprint, hFirst] at hFirstSame
    cases hFirstSame
    exact hSame

/-- The findings of a part are fixed by the first findings with fingerprints and by the condition. -/
theorem eq (h : part.Selects findings condition) (hOther : other.Selects others condition)
    (hFirst : Finding.first? findings = Finding.first? others) : part = other := by
  have hFindings : part.findings = other.findings := by
    apply h.ascending.eq_of_mem_iff hOther.ascending
    intro finding
    rw [h.mem_findings, hOther.mem_findings, hFirst]
  have hCounts : part.counts = other.counts := by rw [h.counts, hOther.counts, hFindings]
  cases part
  cases other
  cases hFindings
  cases hCounts
  rfl

theorem fingerprints_ascending (h : part.Selects findings condition) :
    Ascending id part.fingerprints :=
  List.pairwise_map.mpr h.ascending

theorem findings_eq_nil (h : part.Selects findings condition)
    (hNone : ∀ fingerprint ∈ findings.map (·.fingerprint), ¬ condition fingerprint) :
    part.findings = [] := by
  rw [List.eq_nil_iff_forall_not_mem]
  intro finding hMem
  obtain ⟨hFirst, hCondition⟩ := h.mem_findings.mp hMem
  exact hNone _ (Finding.exists_first?.mp ⟨finding, hFirst⟩) hCondition

end Selects

end DiffPart

namespace Diff

variable {findings old new : List Finding} {threshold : Severity}

/-- What has been collected stays, and a new fingerprint gets the first finding that has it. -/
private theorem getElem?_foldl_insertIfNew (findings : List Finding)
    (found : Std.TreeMap String Finding) (fingerprint : String) :
    (findings.foldl (fun found finding => found.insertIfNew finding.fingerprint finding)
      found)[fingerprint]? = found[fingerprint]?.or (Finding.first? findings fingerprint) := by
  induction findings generalizing found with
  | nil => simp [Finding.first?]
  | cons finding rest ih =>
      rw [List.foldl_cons, ih, Std.TreeMap.getElem?_insertIfNew, Finding.first?, Finding.first?]
      by_cases hSame : finding.fingerprint = fingerprint
      · subst hSame
        by_cases hFound : finding.fingerprint ∈ found <;> simp [hFound]
      · simp [hSame]

theorem getElem?_byFingerprint (findings : List Finding) (fingerprint : String) :
    (byFingerprint findings)[fingerprint]? = Finding.first? findings fingerprint := by
  rw [byFingerprint, getElem?_foldl_insertIfNew, Std.TreeMap.getElem?_emptyc, Option.none_or]

theorem contains_byFingerprint {fingerprint : String} :
    (byFingerprint findings).contains fingerprint = true ↔
      fingerprint ∈ findings.map (·.fingerprint) := by
  rw [Std.TreeMap.contains_eq_isSome_getElem?, getElem?_byFingerprint,
    Option.isSome_iff_exists, Finding.exists_first?]

theorem mem_toList_byFingerprint {fingerprint : String} {finding : Finding} :
    (fingerprint, finding) ∈ (byFingerprint findings).toList ↔
      Finding.first? findings fingerprint = some finding := by
  rw [Std.TreeMap.mem_toList_iff_getElem?_eq_some, getElem?_byFingerprint]

theorem select_selects (findings : List Finding) (condition : String → Bool) :
    (select (byFingerprint findings) condition).Selects findings (condition · = true) := by
  have hMem (finding : Finding) : finding ∈ (select (byFingerprint findings) condition).findings ↔
      Finding.first? findings finding.fingerprint = some finding ∧
        condition finding.fingerprint = true := by
    simp only [select, DiffPart.ofFindings, List.mem_map, List.mem_filter, Prod.exists,
      mem_toList_byFingerprint, exists_eq_right]
    constructor
    · rintro ⟨fingerprint, hFirst, hCondition⟩
      obtain ⟨-, rfl⟩ := Finding.first?_eq_some hFirst
      exact ⟨hFirst, hCondition⟩
    · rintro ⟨hFirst, hCondition⟩
      exact ⟨_, hFirst, hCondition⟩
  refine ⟨fun fingerprint => ?_, ?_, fun finding h => ((hMem finding).mp h).1, rfl⟩
  · rw [DiffPart.fingerprints, List.mem_map, ← Finding.exists_first?]
    constructor
    · rintro ⟨finding, hFinding, rfl⟩
      obtain ⟨hFirst, hCondition⟩ := (hMem finding).mp hFinding
      exact ⟨⟨finding, hFirst⟩, hCondition⟩
    · rintro ⟨⟨finding, hFirst⟩, hCondition⟩
      obtain ⟨-, rfl⟩ := Finding.first?_eq_some hFirst
      exact ⟨finding, (hMem finding).mpr ⟨hFirst, hCondition⟩, rfl⟩
  · apply List.pairwise_map.mpr
    have hKeys := (Std.TreeMap.ordered_keys_toList (t := byFingerprint findings)).filter
      fun entry => condition entry.1
    apply hKeys.imp_of_mem
    rintro ⟨fingerprint, finding⟩ ⟨later, other⟩ hFinding hOther hLess
    have hFirst := mem_toList_byFingerprint.mp (List.mem_filter.mp hFinding).1
    have hLater := mem_toList_byFingerprint.mp (List.mem_filter.mp hOther).1
    obtain ⟨-, rfl⟩ := Finding.first?_eq_some hFirst
    obtain ⟨-, rfl⟩ := Finding.first?_eq_some hLater
    exact hLess

theorem introduced_selects (old new : List Finding) (threshold : Severity) :
    (compute old new threshold).introduced.Selects new (· ∉ old.map (·.fingerprint)) := by
  have h := select_selects new fun fingerprint => !(byFingerprint old).contains fingerprint
  simp only [Bool.not_eq_true', ← Bool.not_eq_true, contains_byFingerprint] at h
  exact h

theorem resolved_selects (old new : List Finding) (threshold : Severity) :
    (compute old new threshold).resolved.Selects old (· ∉ new.map (·.fingerprint)) :=
  introduced_selects new old threshold

theorem persisting_selects (old new : List Finding) (threshold : Severity) :
    (compute old new threshold).persisting.Selects new (· ∈ old.map (·.fingerprint)) := by
  have h := select_selects new fun fingerprint => (byFingerprint old).contains fingerprint
  simp only [contains_byFingerprint] at h
  exact h

theorem regression_eq_gate (old new : List Finding) (threshold : Severity) :
    (compute old new threshold).regression =
      gate (compute old new threshold).introduced.findings threshold := by
  rw [Bool.eq_iff_iff, gate_eq_true_iff, ← (introduced_selects old new threshold).counts]
  exact decide_eq_true_iff

/-- What persists has the same fingerprints whichever run is the old one. -/
theorem persisting_fingerprints_swap (old new : List Finding) (threshold other : Severity) :
    (compute new old threshold).persisting.fingerprints =
      (compute old new other).persisting.fingerprints := by
  have hSwapped := persisting_selects new old threshold
  have hKept := persisting_selects old new other
  apply hSwapped.fingerprints_ascending.eq_of_mem_iff hKept.fingerprints_ascending
  intro fingerprint
  rw [hSwapped.mem_fingerprints, hKept.mem_fingerprints]
  exact and_comm

theorem compute_eq_of_first? {old' new' : List Finding}
    (hOld : Finding.first? old = Finding.first? old')
    (hNew : Finding.first? new = Finding.first? new') :
    compute old new threshold = compute old' new' threshold := by
  have hFingerprints {findings others : List Finding}
      (h : Finding.first? findings = Finding.first? others) :
      ∀ fingerprint, fingerprint ∈ findings.map (·.fingerprint) ↔
        fingerprint ∈ others.map (·.fingerprint) := by
    intro fingerprint
    rw [← Finding.exists_first?, h, Finding.exists_first?]
  have hIntroduced : (compute old new threshold).introduced =
      (compute old' new' threshold).introduced := by
    apply (introduced_selects old new threshold).eq _ hNew
    simpa only [hFingerprints hOld] using introduced_selects old' new' threshold
  have hResolved : (compute old new threshold).resolved =
      (compute old' new' threshold).resolved := by
    apply (resolved_selects old new threshold).eq _ hOld
    simpa only [hFingerprints hNew] using resolved_selects old' new' threshold
  have hPersisting : (compute old new threshold).persisting =
      (compute old' new' threshold).persisting := by
    apply (persisting_selects old new threshold).eq _ hNew
    simpa only [hFingerprints hOld] using persisting_selects old' new' threshold
  have hRegression : (compute old new threshold).regression =
      (compute old' new' threshold).regression := by
    rw [regression_eq_gate, regression_eq_gate, hIntroduced]
  exact Diff.mk.injEq .. |>.mpr ⟨rfl, hRegression, hIntroduced, hResolved, hPersisting⟩

/-- A comparison parts the fingerprints of both runs, and it is a regression if what it introduces
fails a run. -/
structure Partitions (diff : Diff) (old new : List Finding) : Prop where
  introduced : diff.introduced.Selects new (· ∉ old.map (·.fingerprint))
  resolved : diff.resolved.Selects old (· ∉ new.map (·.fingerprint))
  persisting : diff.persisting.Selects new (· ∈ old.map (·.fingerprint))
  regression : diff.regression = gate diff.introduced.findings diff.threshold

/-- A comparison parts the fingerprints. Comparing the other way round exchanges what is introduced
and what is resolved, nothing is new in a run compared with itself, and where fingerprints determine
findings the order of either run does not matter. -/
theorem compute_partitions (old new : List Finding) (threshold : Severity) :
    (compute old new threshold).Partitions old new ∧
      (compute old new threshold).threshold = threshold ∧
      (∀ other : Severity,
        (compute new old other).introduced = (compute old new threshold).resolved ∧
          (compute new old other).resolved = (compute old new threshold).introduced ∧
          (compute new old other).persisting.fingerprints =
            (compute old new threshold).persisting.fingerprints) ∧
      ((compute new new threshold).introduced.findings = [] ∧
        (compute new new threshold).resolved.findings = []) ∧
      (∀ rearranged : List Finding, Finding.Determined old → old.Perm rearranged →
        compute rearranged new threshold = compute old new threshold) ∧
      ∀ rearranged : List Finding, Finding.Determined new → new.Perm rearranged →
        compute old rearranged threshold = compute old new threshold := by
  refine ⟨⟨introduced_selects old new threshold, resolved_selects old new threshold,
    persisting_selects old new threshold, regression_eq_gate old new threshold⟩, rfl,
    fun other => ⟨rfl, rfl, persisting_fingerprints_swap old new other threshold⟩, ⟨?_, ?_⟩, ?_, ?_⟩
  · exact (introduced_selects new new threshold).findings_eq_nil fun _ h hNot => hNot h
  · exact (resolved_selects new new threshold).findings_eq_nil fun _ h hNot => hNot h
  · intro rearranged hDetermined hPerm
    exact compute_eq_of_first? (hDetermined.first?_eq_of_perm hPerm).symm rfl
  · intro rearranged hDetermined hPerm
    exact compute_eq_of_first? rfl (hDetermined.first?_eq_of_perm hPerm).symm

/-- A finding of which only the fingerprint matters. -/
def marked (fingerprint : String) : Finding :=
  .ofCatalog .integrityOrphanLabel "" fingerprint

/-- An old run in which a finding occurs twice. -/
def before : List Finding :=
  ["b", "a", "b"].map marked

/-- A new run that lacks a finding of the old one and has another. -/
def after : List Finding :=
  ["c", "b"].map marked

theorem determined_map_marked (fingerprints : List String) :
    Finding.Determined (fingerprints.map marked) := by
  intro a ha b hb hSame
  obtain ⟨_, -, rfl⟩ := List.mem_map.mp ha
  obtain ⟨_, -, rfl⟩ := List.mem_map.mp hb
  exact congrArg marked hSame

theorem before_after_partitions :
    Finding.Determined before ∧ before.Perm before.reverse ∧
      compute before.reverse after .high = compute before after .high ∧
      Finding.Determined after ∧ after.Perm after.reverse ∧
      compute before after.reverse .high = compute before after .high := by
  obtain ⟨-, -, -, -, hOld, hNew⟩ := compute_partitions before after .high
  have hBefore : Finding.Determined before := determined_map_marked _
  have hAfter : Finding.Determined after := determined_map_marked _
  exact ⟨hBefore, before.reverse_perm.symm, hOld _ hBefore before.reverse_perm.symm,
    hAfter, after.reverse_perm.symm, hNew _ hAfter after.reverse_perm.symm⟩

end Diff

end DatasetAudit
