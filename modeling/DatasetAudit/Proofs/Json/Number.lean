import DatasetAudit.Json.Parser
import DatasetAudit.Json.Printer
import DatasetAudit.Proofs.Decimal.Text

/-! Written numbers read back: integers of sixty-four bits as integers, and finite floats, with a
point or an exponent in their text, as the same floats. -/

namespace DatasetAudit

namespace Json

open Decimal

/-- What may follow a written value: nothing, a comma, or a line break. -/
def Ends (rest : List Char) : Prop :=
  ∀ c ∈ rest.head?, c = ',' ∨ c = '\n'

theorem ends_cons {c : Char} (h : c = ',' ∨ c = '\n') (rest : List Char) : Ends (c :: rest) := by
  rintro _ ⟨⟩
  exact h

variable {negative : Bool} {text rest : List Char}

theorem Ends.noDigit (h : Ends rest) : NoDigit rest := by
  intro c hc
  rcases h c hc with rfl | rfl <;> rfl

theorem wholeDigits?_append (h : Whole text) (hRest : NoDigit rest) :
    wholeDigits? (text ++ rest) = some (text, rest) := by
  by_cases hZero : text.head? = some '0'
  · rw [h.zero hZero]
    rfl
  · rw [wholeDigits?]
    · rw [spanDigits_append h.digits hRest]
      simp [h.ne_nil]
    · intro other hOther
      apply hZero
      rw [← List.head?_append_of_ne_nil _ h.ne_nil, hOther]
      rfl

theorem fractionDigits?_append {fraction : Option (List Char)}
    (h : ∀ digits ∈ fraction, digits ≠ [] ∧ ∀ c ∈ digits, c.isDigit = true)
    (hRest : NoDigit rest) (hPoint : rest.head? ≠ some '.') :
    fractionDigits? (fraction.elim [] ('.' :: ·) ++ rest) = some (fraction, rest) := by
  cases fraction with
  | none =>
      rw [Option.elim_none, List.nil_append, fractionDigits?]
      rintro other rfl
      exact hPoint rfl
  | some digits =>
      obtain ⟨hNe, hDigits⟩ := h digits rfl
      rw [Option.elim_some, List.cons_append, fractionDigits?, spanDigits_append hDigits hRest]
      simp [hNe]

theorem exponentPart?_append (exponent : Option Int) (hRest : Ends rest) :
    exponentPart? (exponent.elim [] Parts.exponentText ++ rest) = some (exponent, rest) := by
  cases exponent with
  | none =>
      cases rest with
      | nil => rfl
      | cons c _ => rcases hRest c rfl with rfl | rfl <;> rfl
  | some e =>
      have hSpan : spanDigits (digitsText e.natAbs ++ rest) = (digitsText e.natAbs, rest) :=
        spanDigits_append (fun _ => isDigit_of_mem_digitsText) hRest.noDigit
      have hNe := (whole_digitsText e.natAbs).ne_nil
      by_cases hSign : e < 0
      · simp [Parts.exponentText, exponentPart?, takeSign, hSign, hSpan, hNe,
          valueOfDigits_digitsText, abs_of_neg hSign]
      · simp [Parts.exponentText, exponentPart?, takeSign, hSign, hSpan, hNe,
          valueOfDigits_digitsText, not_lt.mp hSign]

/-- What follows the fraction of a number is no digit and no point. -/
theorem head?_exponent_append (exponent : Option Int) (hRest : Ends rest) :
    ∀ c ∈ (exponent.elim [] Parts.exponentText ++ rest).head?, c = 'e' ∨ c = ',' ∨ c = '\n' := by
  cases exponent with
  | none => exact fun c hc => .inr (hRest c hc)
  | some _ =>
      rintro _ ⟨⟩
      exact .inl rfl

/-- A number is read part by part. -/
theorem number?_parts {parts : Parts} (hWhole : Whole parts.whole)
    (hFraction : ∀ digits ∈ parts.fraction, digits ≠ [] ∧ ∀ c ∈ digits, c.isDigit = true)
    (hRest : Ends rest) : number? negative (parts.text ++ rest) =
      some (if parts.fraction.isSome || parts.exponent.isSome then
        ofDecimal (parts.toDecimal negative)
      else ofWhole negative (valueOfDigits parts.whole), rest) := by
  have hHead := head?_exponent_append parts.exponent hRest
  have hNoDigit : NoDigit (parts.exponent.elim [] Parts.exponentText ++ rest) := by
    intro c hc
    rcases hHead c hc with rfl | rfl | rfl <;> rfl
  have hPoint : (parts.exponent.elim [] Parts.exponentText ++ rest).head? ≠ some '.' := by
    intro hEq
    rcases hHead '.' hEq with h | h | h <;> simp at h
  have hBoth : NoDigit (parts.fraction.elim [] ('.' :: ·) ++
      (parts.exponent.elim [] Parts.exponentText ++ rest)) := by
    cases parts.fraction with
    | none => exact hNoDigit
    | some _ =>
        rintro _ ⟨⟩
        rfl
  unfold number?
  rw [Parts.text, List.append_assoc, List.append_assoc, wholeDigits?_append hWhole hBoth]
  simp only [Option.bind_eq_bind, Option.bind_some]
  rw [fractionDigits?_append hFraction hNoDigit hPoint]
  simp only [Option.bind_some]
  rw [exponentPart?_append _ hRest]
  simp only [Option.bind_some]
  unfold Parts.toDecimal
  cases parts.fraction <;> cases parts.exponent <;> simp

/-- A text is a sign and digits that read as a value, whatever ends them. -/
def NumberText (text : List Char) (value : Json) : Prop :=
  ∃ negative digits, text = signText negative ++ digits ∧ (∃ c ∈ digits.head?, c.isDigit = true) ∧
    ∀ rest, Ends rest → number? negative (digits ++ rest) = some (value, rest)

/-- A whole number reads back by its sign and its digits. -/
theorem numberText_writeInteger (n : Int) :
    NumberText (writeInteger n) (ofWhole (n < 0) n.natAbs) := by
  have hWhole := whole_digitsText n.natAbs
  refine ⟨n < 0, (Parts.mk (digitsText n.natAbs) none none).text, ?_, Parts.exists_head? hWhole, ?_⟩
  · simp [writeInteger, Parts.text]
  · intro rest hRest
    rw [number?_parts hWhole (by rintro _ ⟨⟩) hRest, valueOfDigits_digitsText]
    rfl

/-- An integer of sixty-four bits is kept as one. -/
theorem ofWhole_eq_integer {n : Int} (hLow : -2 ^ 63 ≤ n) (hHigh : n < 2 ^ 64) :
    ofWhole (n < 0) n.natAbs = .integer n := by
  unfold ofWhole
  by_cases hSign : n < 0
  · have hFits : (decide (0 < n.natAbs) && decide (n.natAbs ≤ 1 <<< 63)) = true := by
      rw [Nat.one_shiftLeft, Bool.and_eq_true, decide_eq_true_eq, decide_eq_true_eq]
      omega
    have hAbs : -(n.natAbs : Int) = n := by omega
    rw [if_pos (decide_eq_true hSign), if_pos hFits, hAbs]
  · have hFits : n.natAbs < UInt64.size := by
      simp only [UInt64.size]
      omega
    have hAbs : (n.natAbs : Int) = n := by omega
    rw [if_neg (by simpa using hSign), if_pos hFits, hAbs]

theorem numberText_writeFloat {x : Float} (h : x.isFinite = true) :
    NumberText (writeFloat x) (.float x) := by
  obtain ⟨d, hShortest, hReads⟩ := exists_shortest? h .toEven
  obtain ⟨parts, hSpells, hText⟩ : ∃ parts : Parts, parts.Spells d ∧
      writeFloat x = signText d.negative ++ parts.text := by
    rw [writeFloat, hShortest]
    simp only
    split
    · exact exists_spells_positional d
    · exact exists_spells_scientific d
  refine ⟨d.negative, parts.text, hText, Parts.exists_head? hSpells.whole, ?_⟩
  intro rest hRest
  have hSome : (parts.fraction.isSome || parts.exponent.isSome) = true := by
    simpa using hSpells.some
  rw [number?_parts hSpells.whole hSpells.fraction hRest, if_pos hSome, ofDecimal,
    hReads (parts.toDecimal d.negative) rfl hSpells.size]
  simp [h]

/-- An infinity or a NaN is written as the word for no value. -/
theorem writeFloat_eq_null {x : Float} (h : x.isFinite = false) : writeFloat x = "null".toList := by
  rw [writeFloat, shortest?, Binary64.ofFloat?_eq_none_iff.mpr h]
  rfl

end Json

end DatasetAudit
