import DatasetAudit.Finding.Basic
import DatasetAudit.Proofs.Grouping
import DatasetAudit.Proofs.Sorting

/-! The order of presentation. It is a total preorder in which two findings tie if and only if they
agree in name, split, image, label and fingerprint. -/

namespace DatasetAudit

theorem FindingId.name_injective {id other : FindingId} (h : id.name = other.name) :
    id = other := by
  revert h
  cases id <;> cases other <;> decide

namespace Finding

instance : Std.TransCmp order := by
  unfold order
  infer_instance

theorem order_eq_iff {a b : Finding} :
    order a b = .eq ↔ a.id = b.id ∧ a.split = b.split ∧ a.image = b.image ∧ a.label = b.label ∧
      a.fingerprint = b.fingerprint := by
  have hName : a.id.name = b.id.name ↔ a.id = b.id :=
    ⟨FindingId.name_injective, congrArg FindingId.name⟩
  simp only [order, compareLex, compareOn, Ordering.then_eq_eq, Std.LawfulEqCmp.compare_eq_iff_eq,
    hName]

end Finding

end DatasetAudit
