import Mathlib.Tactic.Common

/-! Results that may be errors: when a chain of steps succeeds, and which of them makes it fail. -/

namespace DatasetAudit.Except

variable {ε ε' α β : Type} {x : Except ε α}

/-- A result that comes of two steps comes of both. -/
theorem exists_of_bind {f : α → Except ε β} {b : β} (h : x.bind f = .ok b) :
    ∃ a, x = .ok a ∧ f a = .ok b := by
  cases x with
  | error _ => cases h
  | ok a => exact ⟨a, rfl, h⟩

theorem exists_of_map {f : α → β} {b : β} (h : x.map f = .ok b) : ∃ a, x = .ok a ∧ f a = b := by
  cases x with
  | error _ => cases h
  | ok a => exact ⟨a, rfl, Except.ok.inj h⟩

theorem eq_ok_of_toOption {a : α} (h : x.toOption = some a) : x = .ok a := by
  cases x with
  | error _ => cases h
  | ok b => exact congrArg Except.ok (Option.some.inj h)

theorem exists_of_toOption_map {f : α → β} {b : β} (h : x.toOption.map f = some b) :
    ∃ a, x = .ok a ∧ f a = b := by
  obtain ⟨a, hSome, hValue⟩ := Option.map_eq_some_iff.mp h
  exact ⟨a, eq_ok_of_toOption hSome, hValue⟩

theorem exists_of_toOption_any {p : α → Bool} (h : x.toOption.any p = true) :
    ∃ a, x = .ok a ∧ p a = true := by
  obtain ⟨a, hSome, hHolds⟩ := (Option.any_eq_true _ _).mp h
  exact ⟨a, eq_ok_of_toOption hSome, hHolds⟩

theorem exists_of_isSome_toOption (h : x.toOption.isSome = true) : ∃ a, x = .ok a := by
  obtain ⟨a, hSome⟩ := Option.isSome_iff_exists.mp h
  exact ⟨a, eq_ok_of_toOption hSome⟩

theorem bind_eq_error_iff {f : α → Except ε β} {e : ε} :
    x.bind f = .error e ↔ x = .error e ∨ ∃ a, x = .ok a ∧ f a = .error e := by
  cases x <;> simp [Except.bind]

theorem mapError_eq_error_iff {f : ε → ε'} {e : ε'} :
    x.mapError f = .error e ↔ ∃ cause, x = .error cause ∧ f cause = e := by
  cases x <;> simp [Except.mapError]

theorem mapError_eq_ok_iff {f : ε → ε'} {a : α} : x.mapError f = .ok a ↔ x = .ok a := by
  cases x <;> simp [Except.mapError]

end DatasetAudit.Except
