import DatasetAudit.Decimal.Reading
import DatasetAudit.Decimal.Text
import DatasetAudit.Proofs.Decimal.Shortest

/-! The text of a number has a whole part, perhaps digits after a point and perhaps an exponent.
However a decimal number is laid out, its text spells a number of the same size. -/

namespace DatasetAudit

namespace Decimal

/-- A text that does not begin with a digit. -/
def NoDigit (text : List Char) : Prop :=
  ∀ c ∈ text.head?, c.isDigit = false

section Digits

variable {text rest : List Char} {n : Nat}

/-- Digits are read up to the first other character. -/
theorem spanDigits_append (hText : ∀ c ∈ text, c.isDigit = true) (hRest : NoDigit rest) :
    spanDigits (text ++ rest) = (text, rest) := by
  have hEnd : rest.takeWhile Char.isDigit = [] ∧ rest.dropWhile Char.isDigit = rest := by
    cases rest with
    | nil => exact ⟨rfl, rfl⟩
    | cons c _ => simp [hRest c rfl]
  rw [spanDigits, List.takeWhile_append_of_pos hText, List.dropWhile_append_of_pos hText, hEnd.1,
    hEnd.2, List.append_nil]

theorem valueOfDigits_eq (text : List Char) : valueOfDigits text = Nat.ofDigitChars 10 text 0 := by
  simp only [valueOfDigits, Nat.ofDigitChars_eq_foldl, digitValue, Nat.mul_comm]

theorem valueOfDigits_digitsText (n : Nat) : valueOfDigits (digitsText n) = n := by
  rw [valueOfDigits_eq, digitsText, Nat.ofDigitChars_ten_toDigits]

theorem valueOfDigits_replicate_append (k : Nat) (text : List Char) :
    valueOfDigits (List.replicate k '0' ++ text) = valueOfDigits text := by
  simp [valueOfDigits_eq, Nat.ofDigitChars_append]

theorem valueOfDigits_append_zero (text : List Char) :
    valueOfDigits (text ++ ['0']) = valueOfDigits text * 10 := by
  rw [valueOfDigits, List.foldl_append]
  rfl

theorem isDigit_of_mem_digitsText {c : Char} (h : c ∈ digitsText n) : c.isDigit = true :=
  Nat.isDigit_of_mem_toDigits (by norm_num) (by norm_num) h

/-- Only zero is written with a zero in front. -/
theorem digitsText_head? (h : (digitsText n).head? = some '0') : n = 0 := by
  induction n using Nat.strongRecOn with
  | ind n ih =>
      rw [digitsText, Nat.toDigits_eq_if (by norm_num)] at h
      split at h
      · simpa using h
      · rename_i hMore
        rw [List.head?_append_of_ne_nil _ Nat.toDigits_ne_nil] at h
        have hZero := ih (n / 10) (Nat.div_lt_self (by omega) (by norm_num)) h
        omega

/-- Digits without a superfluous zero in front. -/
structure Whole (text : List Char) : Prop where
  ne_nil : text ≠ []
  digits : ∀ c ∈ text, c.isDigit = true
  zero : text.head? = some '0' → text = ['0']

theorem Whole.singleton {c : Char} (h : c.isDigit = true) : Whole [c] where
  ne_nil := List.cons_ne_nil _ _
  digits := by simpa using h
  zero := by simp

theorem whole_digitsText (n : Nat) : Whole (digitsText n) where
  ne_nil := Nat.toDigits_ne_nil
  digits _ hc := isDigit_of_mem_digitsText hc
  zero h := by
    obtain rfl := digitsText_head? h
    rfl

/-- The front of a whole part is one too. -/
theorem Whole.take (h : Whole text) {k : Nat} (hk : 0 < k) : Whole (text.take k) where
  ne_nil := by
    have := h.ne_nil
    simp [hk.ne', this]
  digits c hc := h.digits c (List.mem_of_mem_take hc)
  zero hZero := by
    rw [List.head?_take, if_neg hk.ne'] at hZero
    rw [h.zero hZero]
    exact List.take_of_length_le hk

end Digits

/-- The parts of a number's text. -/
structure Parts where
  whole : List Char
  fraction : Option (List Char)
  exponent : Option Int

namespace Parts

/-- The text of an exponent. -/
def exponentText (e : Int) : List Char :=
  'e' :: (if e < 0 then '-' else '+') :: digitsText e.natAbs

/-- The text of the parts. -/
def text (parts : Parts) : List Char :=
  parts.whole ++ (parts.fraction.elim [] ('.' :: ·) ++ parts.exponent.elim [] exponentText)

/-- The number that the parts stand for, with a sign. -/
def toDecimal (parts : Parts) (negative : Bool) : Decimal :=
  ⟨negative, valueOfDigits (parts.whole ++ parts.fraction.getD []),
    parts.exponent.getD 0 - (parts.fraction.getD []).length⟩

/-- The parts are well formed, one of them tells the text from that of a whole number, and they
have the size of a decimal number. -/
structure Spells (parts : Parts) (d : Decimal) : Prop where
  whole : Whole parts.whole
  fraction : ∀ digits ∈ parts.fraction, digits ≠ [] ∧ ∀ c ∈ digits, c.isDigit = true
  some : parts.fraction.isSome = true ∨ parts.exponent.isSome = true
  size : (parts.toDecimal d.negative).magnitude = d.magnitude

/-- The text of the parts begins with a digit. -/
theorem exists_head? {parts : Parts} (h : Whole parts.whole) :
    ∃ c ∈ parts.text.head?, c.isDigit = true := by
  rw [text, List.head?_append_of_ne_nil _ h.ne_nil]
  exact ⟨_, List.head?_eq_some_head h.ne_nil, h.digits _ (List.head_mem h.ne_nil)⟩

end Parts

section Layout

variable {d : Decimal}

/-- A number with a point before its last digits, zeros put in front where they are too few. -/
theorem exists_withPoint {n places : Nat} (h : 0 < places) : ∃ whole fraction,
    withPoint n places = whole ++ '.' :: fraction ∧ Whole whole ∧
      (∀ c ∈ fraction, c.isDigit = true) ∧ fraction.length = places ∧
        valueOfDigits (whole ++ fraction) = n := by
  obtain ⟨padded, hPadded⟩ : ∃ padded,
    List.replicate (places + 1 - (digitsText n).length) '0' ++ digitsText n = padded := ⟨_, rfl⟩
  have hDigits : ∀ c ∈ padded, c.isDigit = true := by
    intro c hc
    rw [← hPadded] at hc
    rcases List.mem_append.mp hc with hZero | hDigit
    · rw [List.eq_of_mem_replicate hZero]
      rfl
    · exact isDigit_of_mem_digitsText hDigit
  have hLength : places < padded.length := by
    rw [← hPadded, List.length_append, List.length_replicate]
    omega
  refine ⟨padded.take (padded.length - places), padded.drop (padded.length - places), ?_, ?_, ?_,
    ?_, ?_⟩
  · simp only [withPoint, hPadded, if_neg h.ne']
  · rcases Nat.lt_or_ge places (digitsText n).length with hLong | hShort
    · have hNone : places + 1 - (digitsText n).length = 0 := by omega
      rw [hNone, List.replicate_zero, List.nil_append] at hPadded
      rw [← hPadded] at hLength ⊢
      exact (whole_digitsText n).take (by omega)
    · have hOne : padded.length - places = 1 := by
        rw [← hPadded, List.length_append, List.length_replicate]
        omega
      have hSome : places + 1 - (digitsText n).length =
          (places - (digitsText n).length) + 1 := by omega
      rw [hSome, List.replicate_succ, List.cons_append] at hPadded
      rw [hOne, ← hPadded, List.take_succ_cons, List.take_zero]
      exact .singleton rfl
  · exact fun c hc => hDigits c (List.mem_of_mem_drop hc)
  · rw [List.length_drop]
    omega
  · rw [List.take_append_drop, ← hPadded, valueOfDigits_replicate_append, valueOfDigits_digitsText]

/-- A number written out in full, with a zero after the point if it is whole. -/
theorem exists_spells_positional (d : Decimal) : ∃ parts : Parts, parts.Spells d ∧
    d.positional ++ (if 0 ≤ d.exponent then ['.', '0'] else []) =
      signText d.negative ++ parts.text := by
  unfold positional
  by_cases hWhole : 0 ≤ d.exponent
  · refine ⟨⟨digitsText (d.digits * tenTo d.exponent.toNat), some ['0'], none⟩, ?_, ?_⟩
    · refine ⟨whole_digitsText _, ?_, .inl rfl, ?_⟩
      · rintro _ ⟨⟩
        simp
      · have hTens : (tenTo d.exponent.toNat : ℚ) = 10 ^ d.exponent := by
          rw [tenTo_toNat]
          have hNone : (-d.exponent).toNat = 0 := by omega
          rw [hNone, tenTo_eq]
          simp
        simp only [Parts.toDecimal, Option.getD_some, Option.getD_none, magnitude,
          valueOfDigits_append_zero, valueOfDigits_digitsText]
        push_cast
        rw [hTens]
        norm_num
        ring
    · simp [hWhole, Parts.text]
  · obtain ⟨whole, fraction, hText, hParts, hDigits, hLength, hValue⟩ :=
      @exists_withPoint d.digits (-d.exponent).toNat (by omega)
    refine ⟨⟨whole, some fraction, none⟩, ?_, ?_⟩
    · refine ⟨hParts, ?_, .inl rfl, ?_⟩
      · rintro _ ⟨⟩
        refine ⟨?_, hDigits⟩
        rintro rfl
        rw [List.length_nil] at hLength
        omega
      · have hExponent : (0 : Int) - fraction.length = d.exponent := by omega
        simp only [Parts.toDecimal, Option.getD_some, Option.getD_none, magnitude, hValue,
          hExponent]
    · simp [hWhole, Parts.text, hText]

/-- A number in scientific notation. -/
theorem exists_spells_scientific (d : Decimal) : ∃ parts : Parts, parts.Spells d ∧
    d.scientific = signText d.negative ++ parts.text := by
  have hDigits : ∀ c ∈ digitsText d.digits, c.isDigit = true :=
    fun _ => isDigit_of_mem_digitsText
  have hValue := valueOfDigits_digitsText d.digits
  unfold scientific leading digitCount
  simp only
  rw [← digitsText]
  cases hText : digitsText d.digits with
  | nil => exact absurd hText Nat.toDigits_ne_nil
  | cons first others =>
      rw [hText] at hDigits hValue
      have hFirst := Whole.singleton (hDigits first List.mem_cons_self)
      cases others with
      | nil =>
          refine ⟨⟨[first], none, some d.exponent⟩, ⟨hFirst, ?_, .inr rfl, ?_⟩, ?_⟩
          · rintro _ ⟨⟩
          · simp [Parts.toDecimal, magnitude, hValue]
          · simp [Parts.text, Parts.exponentText]
      | cons second rest =>
          refine ⟨⟨[first], some (second :: rest), some (d.exponent + (rest.length + 1 : Nat))⟩,
            ⟨hFirst, ?_, .inl rfl, ?_⟩, ?_⟩
          · rintro _ ⟨⟩
            exact ⟨List.cons_ne_nil _ _, fun c hc => hDigits c (List.mem_cons_of_mem _ hc)⟩
          · simp [Parts.toDecimal, magnitude, hValue]
          · simp [Parts.text, Parts.exponentText]

end Layout

end Decimal

end DatasetAudit
