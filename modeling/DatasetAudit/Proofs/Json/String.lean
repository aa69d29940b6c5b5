import DatasetAudit.Json.Parser
import DatasetAudit.Json.Printer

/-! A written string reads back: every character is escaped as the reader undoes it, and no
character is half of a surrogate pair. -/

namespace DatasetAudit

theorem Hex.value?_digit : ∀ n, n < 16 → value? (digit n) = some n := by
  decide

namespace Json

variable {text : List Char}

/-- A control character's two last hexadecimal digits give it back. -/
theorem hexUnit?_ofByte {n : Nat} (h : n < 256) :
    hexUnit? '0' '0' (Hex.digit (n / 16)) (Hex.digit (n % 16)) = some n := by
  have hZero : Hex.value? '0' = some 0 := rfl
  simp only [hexUnit?, hZero, Hex.value?_digit (n / 16) (by omega),
    Hex.value?_digit (n % 16) (by omega), Option.bind_eq_bind, Option.bind_some, Option.some.injEq]
  omega

/-- A letter after a backslash reads as the character that it stands for. -/
theorem stringUnits?_backslash {letter c : Char} (hLetter : letter ≠ 'u')
    (h : escaped? letter = some c) (rest : List Char) :
    stringUnits? ('\\' :: letter :: rest) =
      (stringUnits? rest).map fun (units, rest) => (c.toNat :: units, rest) := by
  rw [stringUnits?]
  · simp only [h, Option.bind_eq_bind, Option.bind_some, Option.map_eq_bind, Function.comp_def]
  · rintro _ _ _ _ _ rfl
    exact absurd rfl hLetter

/-- An escaped character reads as its code point. -/
theorem stringUnits?_escape_append (c : Char) (rest : List Char) :
    stringUnits? (escape c ++ rest) =
      (stringUnits? rest).map fun (units, rest) => (c.toNat :: units, rest) := by
  unfold escape
  split
  case h_8 hQuote hBackslash _ _ _ _ _ =>
    split
    · rename_i hControl
      have hByte : c.toNat.toUInt8.toNat = c.toNat := by
        simp only [Nat.toUInt8, UInt8.toNat_ofNat']
        omega
      simp only [Hex.ofByte, hByte, List.cons_append, List.nil_append, stringUnits?,
        hexUnit?_ofByte (n := c.toNat) (by omega), Option.bind_eq_bind, Option.bind_some,
        Option.map_eq_bind, Function.comp_def]
    · rename_i hPlain
      rw [List.singleton_append, stringUnits?]
      · have hOther : ¬((decide (c = '\\') || decide (c.toNat < 0x20)) = true) := by
          simpa [hPlain] using hBackslash
        rw [if_neg hOther, Option.map_eq_bind]
        rfl
      · exact hQuote
      · intros
        simp_all
      · intros
        simp_all
  all_goals exact stringUnits?_backslash (by decide) rfl rest

theorem stringUnits?_flatMap_escape (text rest : List Char) :
    stringUnits? (text.flatMap escape ++ '"' :: rest) = some (text.map Char.toNat, rest) := by
  induction text with
  | nil => simp [stringUnits?]
  | cons c text ih =>
      rw [List.flatMap_cons, List.append_assoc, stringUnits?_escape_append, ih]
      rfl

theorem surrogate_toNat (c : Char) :
    isHighSurrogate c.toNat = false ∧ isLowSurrogate c.toNat = false := by
  have hValid : c.toNat < 0xD800 ∨ 0xDFFF < c.toNat ∧ c.toNat < 0x110000 := c.valid
  simp only [isHighSurrogate, isLowSurrogate, Bool.and_eq_false_iff, decide_eq_false_iff_not]
  omega

theorem charsOfUnits?_map_toNat (text : List Char) :
    charsOfUnits? (text.map Char.toNat) = some text := by
  induction text with
  | nil => rfl
  | cons c text ih =>
      cases text with
      | nil => simp [charsOfUnits?, surrogate_toNat]
      | cons next rest =>
          rw [List.map_cons] at ih
          simp [charsOfUnits?, surrogate_toNat, ih]

/-- What follows the first quote of a written string is read as the string. -/
theorem stringTail?_write (s : String) (rest : List Char) :
    stringTail? (s.toList.flatMap escape ++ '"' :: rest) = some (some s, rest) := by
  rw [stringTail?, stringUnits?_flatMap_escape, Option.map_some]
  simp only [charsOfUnits?_map_toNat, Option.map_some, String.ofList_toList]

end Json

end DatasetAudit
