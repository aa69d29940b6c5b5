import DatasetAudit.Proofs.Counting
import DatasetAudit.Report.Basic

/-! The counts of findings by severity, as one count for each severity. Added up they are the number
of findings, and from a threshold on the number of findings that reach it. -/

namespace DatasetAudit

theorem Severity.mem_descending (severity : Severity) : severity ∈ descending := by
  cases severity <;> decide

theorem Severity.descending_nodup : descending.Nodup := by decide

namespace SeverityCounts

variable {findings others : List Finding}

@[simp]
theorem get_ofFindings (findings : List Finding) (severity : Severity) :
    (ofFindings findings).get severity = findings.countP fun f => f.severity = severity := by
  cases severity <;> rfl

theorem ofFindings_eq_of_perm (h : findings.Perm others) : ofFindings findings = ofFindings others := by
  simp only [ofFindings, h.countP_eq]

theorem total_eq_sum (counts : SeverityCounts) :
    counts.total = (Severity.descending.map counts.get).sum := by
  simp only [total, Severity.descending, List.map_cons, List.map_nil, List.sum_cons, List.sum_nil,
    get]
  omega

theorem total_ofFindings (findings : List Finding) : (ofFindings findings).total = findings.length := by
  rw [total_eq_sum]
  simp only [funext (get_ofFindings findings)]
  exact sum_countP_eq_length Severity.descending_nodup fun f _ => Severity.mem_descending f.severity

theorem atOrAbove_eq_sum (counts : SeverityCounts) (threshold : Severity) :
    counts.atOrAbove threshold =
      ((Severity.descending.filter fun severity => threshold ≤ severity).map counts.get).sum := by
  rw [atOrAbove, List.sum_eq_foldl, List.foldl_map]

theorem atOrAbove_ofFindings (findings : List Finding) (threshold : Severity) :
    (ofFindings findings).atOrAbove threshold =
      findings.countP fun f => threshold ≤ f.severity := by
  rw [atOrAbove_eq_sum]
  simp only [funext (get_ofFindings findings)]
  rw [sum_countP (Severity.descending_nodup.filter _)]
  apply List.countP_congr
  intro f _
  simp [Severity.mem_descending]

end SeverityCounts

/-- A run fails if some of its findings are at or above the severity that fails it. -/
theorem gate_eq_true_iff {findings : List Finding} {failOn : Severity} :
    gate findings failOn = true ↔ 0 < (SeverityCounts.ofFindings findings).atOrAbove failOn := by
  rw [SeverityCounts.atOrAbove_ofFindings, List.countP_pos_iff, gate, List.any_eq_true]

end DatasetAudit
