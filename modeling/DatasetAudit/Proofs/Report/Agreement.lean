import DatasetAudit.Proofs.Check.Origin
import DatasetAudit.Proofs.Finding.Order
import DatasetAudit.Proofs.Index.Sample
import DatasetAudit.Proofs.Report.Counts

/-! The numbers of a report agree. All findings of the outcomes are in it, once and in order, and
what is counted by severity, by check and in all, and what decides whether the run failed, is the
same list of findings. In the report of a run the order of the outcomes does not show, as findings
of different checks never tie. -/

namespace DatasetAudit

theorem CheckKind.mem_all (kind : CheckKind) : kind ∈ all := by
  cases kind <;> decide

theorem CheckKind.all_nodup : all.Nodup := by decide

theorem CheckKind.name_injective {kind other : CheckKind} (h : kind.name = other.name) :
    kind = other := by
  revert h
  cases kind <;> cases other <;> decide

namespace Report

theorem findLast?_eq_getLast? {α : Type} (condition : α → Bool) (items : List α) :
    findLast? condition items = (items.filter condition).getLast? := by
  rw [findLast?, ← List.head?_filter, List.filter_reverse, List.head?_reverse]

section Outcomes

variable {index : Index} {config : Config} {outcomes others : List CheckOutcome} {run : RunInfo}

/-- With one outcome for each check, the last of a check is the only one. -/
theorem toList_findLast? (hKinds : (outcomes.map CheckOutcome.kind).Nodup) (kind : CheckKind) :
    (findLast? (fun outcome => outcome.kind = kind) outcomes).toList =
      outcomes.filter fun outcome => outcome.kind = kind := by
  have hAlone := filter_key_alone hKinds kind
  rw [findLast?_eq_getLast?]
  generalize (outcomes.filter fun outcome => outcome.kind = kind) = alone at hAlone
  match alone with
  | [] => rfl
  | [_] => rfl
  | _ :: _ :: _ => exact absurd (List.rel_of_pairwise_cons hAlone List.mem_cons_self) id

theorem findLast?_eq_some_iff (hKinds : (outcomes.map CheckOutcome.kind).Nodup) {kind : CheckKind}
    {outcome : CheckOutcome} :
    findLast? (fun outcome => outcome.kind = kind) outcomes = some outcome ↔
      outcome ∈ outcomes ∧ outcome.kind = kind := by
  rw [← Option.mem_toList, toList_findLast? hKinds, List.mem_filter, decide_eq_true_eq]

/-- The counts of the checks add up to those of all findings. -/
theorem sum_checks (hKinds : (outcomes.map CheckOutcome.kind).Nodup) (severity : Severity) :
    (CheckKind.all.map fun kind =>
      (((ofOutcomes index config outcomes run).summary.checks kind).map fun check =>
        check.counts.get severity).getD 0).sum =
      (outcomes.flatMap (·.findings)).countP fun f => f.severity = severity := by
  have hCheck (kind : CheckKind) :
      (((ofOutcomes index config outcomes run).summary.checks kind).map fun check =>
        check.counts.get severity).getD 0 =
      ((outcomes.filter fun outcome => outcome.kind = kind).map fun outcome =>
        outcome.findings.countP fun f => f.severity = severity).sum := by
    rw [← toList_findLast? hKinds]
    simp only [ofOutcomes]
    cases findLast? (fun outcome => outcome.kind = kind) outcomes with
    | none => rfl
    | some outcome => simp [checkSummary]
  simp only [hCheck, sum_sum_filter CheckKind.all_nodup, CheckKind.mem_all, decide_true,
    List.filter_true, List.countP_flatMap]
  rfl

/-- What a report says about some outcomes, each number from the findings that it is about. -/
structure Agrees (config : Config) (outcomes : List CheckOutcome) (report : Report) : Prop where
  findings : report.flags.findings.Perm (outcomes.flatMap (·.findings))
  ordered : report.flags.findings.Pairwise fun a b => (Finding.order a b).isLE
  checks : ∀ kind check, report.summary.checks kind = some check ↔
    ∃ outcome ∈ outcomes, outcome.kind = kind ∧ check = checkSummary outcome
  sums : ∀ severity,
    (CheckKind.all.map fun kind =>
      ((report.summary.checks kind).map fun check => check.counts.get severity).getD 0).sum =
        report.summary.totals.bySeverity.get severity
  length : report.summary.totals.findings = report.flags.findings.length
  total : report.summary.totals.findings = report.summary.totals.bySeverity.total
  atOrAbove : ∀ severity, report.summary.totals.bySeverity.atOrAbove severity =
    report.flags.findings.countP fun f => severity ≤ f.severity
  failed : report.summary.totals.buildFailed = gate report.flags.findings config.failOn
  failed_iff : report.summary.totals.buildFailed = true ↔
    0 < report.summary.totals.bySeverity.atOrAbove config.failOn
  exit_iff : report.exitCode = 1 ↔ report.summary.totals.buildFailed = true
  errors : ∀ name, name ∈ report.summary.totals.checkErrors ↔
    ∃ outcome ∈ outcomes, outcome.status = .error ∧ outcome.kind.name = name
  errors_nodup : report.summary.totals.checkErrors.Nodup

theorem errorNames_nodup (hKinds : (outcomes.map CheckOutcome.kind).Nodup) :
    ((outcomes.filter fun outcome => outcome.status = .error).map (·.kind.name)).Nodup := by
  rw [List.Nodup, List.pairwise_map] at hKinds ⊢
  exact (hKinds.filter _).imp fun hNe hName => hNe (CheckKind.name_injective hName)

theorem agrees_ofOutcomes (index : Index) (config : Config) (run : RunInfo)
    (hKinds : (outcomes.map CheckOutcome.kind).Nodup) :
    (ofOutcomes index config outcomes run).Agrees config outcomes where
  findings := List.mergeSort_perm _ _
  ordered := SameTies.pairwise_sort _
  checks kind check := by
    simp only [ofOutcomes, Option.map_eq_some_iff, findLast?_eq_some_iff hKinds, and_assoc,
      eq_comm (a := check)]
  sums severity := by
    rw [sum_checks hKinds]
    simp only [ofOutcomes, totals, SeverityCounts.get_ofFindings]
    exact ((List.mergeSort_perm _ _).countP_eq _).symm
  length := rfl
  total := (SeverityCounts.total_ofFindings _).symm
  atOrAbove severity := SeverityCounts.atOrAbove_ofFindings _ severity
  failed := rfl
  failed_iff := gate_eq_true_iff
  exit_iff := by
    unfold exitCode
    split <;> simp_all
  errors name := by
    simp only [ofOutcomes, totals, checkErrors, mem_sortByKey, List.mem_map, List.mem_filter,
      decide_eq_true_eq, and_assoc]
  errors_nodup := by
    have hNames := errorNames_nodup hKinds
    exact (sortByKey_perm id _).nodup_iff.mpr hNames

/-- If every check is listed once and its findings are of its own kinds, the outcomes may come in
any order. -/
theorem ofOutcomes_eq_of_perm (hKinds : (outcomes.map CheckOutcome.kind).Nodup)
    (hOrigin : ∀ outcome ∈ outcomes, ∀ f ∈ outcome.findings, f.id.check = outcome.kind)
    (hPerm : outcomes.Perm others) :
    ofOutcomes index config others run = ofOutcomes index config outcomes run := by
  have hFindings : Finding.sort (others.flatMap (·.findings)) =
      Finding.sort (outcomes.flatMap (·.findings)) := by
    symm
    apply SameTies.sort_eq
    apply SameTies.flatMap_of_perm hKinds hPerm
    intro x hx y hy a b hb c hc hTieB hTieC
    have hB := (Finding.order_eq_iff.mp hTieB).1
    have hC := (Finding.order_eq_iff.mp hTieC).1
    rw [← hOrigin x hx b hb, ← hOrigin y hy c hc, ← hB, ← hC]
  have hErrors : checkErrors others = checkErrors outcomes := by
    symm
    apply sortByKey_eq_of_perm
    · rw [List.map_id]
      exact errorNames_nodup hKinds
    · exact (hPerm.filter _).map _
  simp only [ofOutcomes, totals, hFindings, hErrors, findLast?_eq_getLast?,
    filter_key_eq_of_perm hKinds hPerm]

end Outcomes

section Runs

variable {index : Index} {config : Config} {run : RunInfo}

theorem map_kind_runChecks (index : Index) (config : Config) :
    (runChecks index config).map CheckOutcome.kind = CheckKind.all := by
  rw [runChecks, List.map_map]
  simp only [Function.comp_def, CheckOutcome.kind_ofCheck, List.map_id']

/-- A check that is not completed has no findings. -/
theorem findings_eq_nil {outcome : CheckOutcome} (hOutcome : outcome ∈ runChecks index config)
    (hStatus : outcome.status ≠ .completed) : outcome.findings = [] := by
  obtain ⟨kind, _, rfl⟩ := List.mem_map.mp hOutcome
  revert hStatus
  unfold CheckOutcome.ofCheck
  split
  · split
    · exact fun hStatus => absurd rfl hStatus
    · exact fun _ => rfl
  · exact fun _ => rfl

/-- What a report says about a run of all checks: it lists every check, those that were not
completed count for nothing, and the order of the outcomes does not show. -/
structure Covers (index : Index) (config : Config) (run : RunInfo) (report : Report) : Prop where
  listed : ∀ kind, (report.summary.checks kind).isSome
  counts : ∀ kind check, report.summary.checks kind = some check → check.status ≠ .completed →
    check.counts = {}
  completed : ∀ part, part = ofOutcomes index config
      ((runChecks index config).filter fun outcome => outcome.status = .completed) run →
    part.flags = report.flags ∧
      part.summary.totals = { report.summary.totals with checkErrors := [] }
  order : ∀ outcomes, (runChecks index config).Perm outcomes →
    ofOutcomes index config outcomes run = report

theorem covers_runChecks (index : Index) (config : Config) (run : RunInfo) :
    (ofOutcomes index config (runChecks index config) run).Covers index config run := by
  have hKinds : ((runChecks index config).map CheckOutcome.kind).Nodup := by
    rw [map_kind_runChecks]
    exact CheckKind.all_nodup
  have hChecks := (agrees_ofOutcomes index config run hKinds).checks
  refine ⟨?_, ?_, ?_, ?_⟩
  · intro kind
    have hMem : kind ∈ (runChecks index config).map CheckOutcome.kind := by
      rw [map_kind_runChecks]
      exact CheckKind.mem_all kind
    obtain ⟨outcome, hOutcome, hKind⟩ := List.mem_map.mp hMem
    exact Option.isSome_iff_exists.mpr ⟨_, (hChecks kind _).mpr ⟨outcome, hOutcome, hKind, rfl⟩⟩
  · intro kind check hCheck hStatus
    obtain ⟨outcome, hOutcome, _, rfl⟩ := (hChecks kind check).mp hCheck
    have hNone : outcome.findings = [] := findings_eq_nil hOutcome hStatus
    rw [checkSummary, hNone]
    rfl
  · rintro part rfl
    have hFindings : ((runChecks index config).filter fun outcome =>
        outcome.status = .completed).flatMap (·.findings) =
          (runChecks index config).flatMap (·.findings) := by
      apply flatMap_filter_eq
      intro outcome hOutcome hStatus
      exact findings_eq_nil hOutcome (of_decide_eq_false hStatus)
    have hErrors : checkErrors ((runChecks index config).filter fun outcome =>
        outcome.status = .completed) = [] := by
      rw [checkErrors, List.filter_filter]
      have hNone : ((runChecks index config).filter fun outcome =>
          decide (outcome.status = .error) && decide (outcome.status = .completed)) = [] := by
        rw [List.filter_eq_nil_iff]
        intro outcome _
        cases outcome.status <;> decide
      rw [hNone]
      exact sortByKey_eq_self .nil
    simp only [ofOutcomes, totals, hFindings, hErrors, and_self]
  · intro outcomes hPerm
    exact ofOutcomes_eq_of_perm hKinds (fun _ hOutcome _ => CheckOutcome.check_of_mem_runChecks hOutcome)
      hPerm

/-- Whatever outcomes a report is made of, at most one for each check, it has all their findings in
order and its numbers agree; and so does the report of a run, whichever check comes first. -/
theorem ofOutcomes_agrees (index : Index) (config : Config) (run : RunInfo) :
    (∀ outcomes : List CheckOutcome, (outcomes.map CheckOutcome.kind).Nodup →
      (ofOutcomes index config outcomes run).Agrees config outcomes) ∧
    (ofOutcomes index config (runChecks index config) run).Covers index config run ∧
    (∀ a, (Finding.order a a).isLE) ∧
    (∀ a b, (Finding.order a b).isLE ∨ (Finding.order b a).isLE) ∧
    ∀ a b c, (Finding.order a b).isLE → (Finding.order b c).isLE → (Finding.order a c).isLE := by
  refine ⟨fun outcomes hKinds => agrees_ofOutcomes index config run hKinds,
    covers_runChecks index config run, ?_, ?_, ?_⟩
  · intro a
    exact Ordering.isLE_of_eq_eq Std.ReflCmp.compare_self
  · intro a b
    exact Bool.or_eq_true_iff.mp SameTies.isLE_or_isLE
  · intro a b c
    exact Std.TransCmp.isLE_trans

end Runs

/-- Outcomes out of order, with findings of several severities and one check that failed. -/
def mixed : List CheckOutcome :=
  [{ kind := .leakage, status := .completed
     findings :=
      [.ofCatalog .leakageNearTrainTest "Near-duplicate train/test leakage." "sha256:02",
       .ofCatalog .leakageExactTrainVal "Exact train/val leakage." "sha256:01"] },
   .ofObstacle .classDistribution .noClasses,
   .ofObstacle .nearDuplicates .disabled,
   { kind := .integrity, status := .completed
     findings := [.ofCatalog .integrityOrphanLabel "Label file has no image." "sha256:03"] }]

/-- A run of one second under the standard configuration. -/
def shortRun : RunInfo :=
  .ofConfig "run" "2024-01-01T00:00:00Z" "2024-01-01T00:00:01Z" 1 {}

theorem mixed_agrees : (mixed.map CheckOutcome.kind).Nodup ∧
    (ofOutcomes (.ofEntries []) {} mixed shortRun).Agrees {} mixed := by
  have hKinds : (mixed.map CheckOutcome.kind).Nodup := by decide
  exact ⟨hKinds, (ofOutcomes_agrees (.ofEntries []) {} shortRun).1 mixed hKinds⟩

end Report

end DatasetAudit
