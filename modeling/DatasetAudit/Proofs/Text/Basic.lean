import DatasetAudit.Text.Utf8
import Mathlib.Data.List.Induction

/-! Texts as bytes and as lines. Bytes determine their text, and the text of a number determines the
number. Lines without separators inside can be split off a text from its end, whatever stands in
front of them. -/

namespace DatasetAudit

theorem Utf8.encode_injective {text other : String} (h : encode text = encode other) :
    text = other := by
  rw [← String.toByteArray_inj]
  apply ByteArray.ext
  exact Array.toList_inj.mp h

/-- The bytes of a text are read as that text. -/
theorem Utf8.decode?_encode (text : String) : decode? (encode text) = some text := by
  rw [decode?, encode, String.fromUTF8?]
  simp only [Array.toArray_toList]
  exact dif_pos text.isValidUTF8

namespace Text

variable {separator : Char}

theorem notMem_intercalate {c : Char} {between : List Char} {parts : List (List Char)}
    (hBetween : c ∉ between) (hParts : ∀ part ∈ parts, c ∉ part) :
    c ∉ between.intercalate parts := by
  induction parts with
  | nil => simp
  | cons part rest ih =>
      have hPart := hParts part List.mem_cons_self
      have hRest := ih fun other hOther => hParts other (List.mem_cons_of_mem _ hOther)
      cases rest with
      | nil => simpa using hPart
      | cons next rest =>
          rw [List.intercalate_cons_cons]
          simp [hPart, hBetween, hRest]

/-- Numbers are written with digits only. -/
theorem notMem_toDigits {c : Char} (h : c.isDigit = false) (n : Nat) : c ∉ Nat.toDigits 10 n := by
  intro hMem
  rw [Nat.isDigit_of_mem_toDigits (by decide) (by decide) hMem] at h
  cases h

theorem notMem_toString {c : Char} (h : c.isDigit = false) (n : Nat) :
    c ∉ (toString n).toList := by
  simpa using notMem_toDigits h n

/-- The characters of a literal are known without its bytes. -/
theorem notMem_ofList {c : Char} {chars : List Char} (h : c ∉ chars) :
    c ∉ (String.ofList chars).toList := by
  rwa [String.toList_ofList]

theorem toString_injective {n m : Nat} (h : toString n = toString m) : n = m := by
  have hDigits : Nat.toDigits 10 n = Nat.toDigits 10 m := by
    simpa using congrArg String.toList h
  rw [← Nat.ofDigitChars_ten_toDigits (n := n), hDigits, Nat.ofDigitChars_ten_toDigits]

theorem notMem_intText {c : Char} (h : c.isDigit = false) (hMinus : c ≠ '-') (n : Int) :
    c ∉ (toString n).toList := by
  cases n with
  | ofNat n => exact notMem_toString h n
  | negSucc n =>
      change c ∉ ("-" ++ toString (n + 1)).toList
      rw [String.toList_append, List.mem_append, not_or]
      exact ⟨List.not_mem_cons_of_ne_of_not_mem hMinus List.not_mem_nil, notMem_toString h (n + 1)⟩

theorem intText_injective {n m : Int} (h : toString n = toString m) : n = m := by
  have hMinus (k k' : Nat) : toString k ≠ "-" ++ toString (k' + 1) := by
    intro hText
    apply notMem_toString (c := '-') rfl k
    rw [hText, String.toList_append]
    exact List.mem_append_left _ (List.mem_singleton_self '-')
  cases n with
  | ofNat n =>
      cases m with
      | ofNat m => exact congrArg Int.ofNat (toString_injective h)
      | negSucc m => exact absurd h (hMinus n m)
  | negSucc n =>
      cases m with
      | ofNat m => exact absurd h.symm (hMinus m n)
      | negSucc m =>
          change "-" ++ toString (n + 1) = "-" ++ toString (m + 1) at h
          have hDigits := toString_injective ((String.append_right_inj "-").mp h)
          exact congrArg Int.negSucc (Nat.succ.inj hDigits)

section Intercalate

variable {parts others : List (List Char)}

/-- Parts without separators inside are found again between the separators. -/
theorem intercalate_injective (hParts : ∀ part ∈ parts, separator ∉ part)
    (hOthers : ∀ part ∈ others, separator ∉ part) (hSome : parts ≠ []) (hSome' : others ≠ [])
    (h : [separator].intercalate parts = [separator].intercalate others) : parts = others := by
  rw [← List.splitOn_intercalate separator hParts hSome, h,
    List.splitOn_intercalate separator hOthers hSome']

theorem intercalate_eq_nil_iff (hParts : ∀ part ∈ parts, part ≠ []) :
    [separator].intercalate parts = [] ↔ parts = [] := by
  cases parts with
  | nil => simp
  | cons first rest =>
      have hFirst := hParts first List.mem_cons_self
      cases rest with
      | nil => simpa using hFirst
      | cons next rest => simp [List.intercalate_cons_cons]

/-- The same for parts that are not empty, of which there may be none. -/
theorem intercalate_injective_of_ne_nil (hParts : ∀ part ∈ parts, separator ∉ part ∧ part ≠ [])
    (hOthers : ∀ part ∈ others, separator ∉ part ∧ part ≠ [])
    (h : [separator].intercalate parts = [separator].intercalate others) : parts = others := by
  have hNil : [separator].intercalate parts = [] ↔ parts = [] :=
    intercalate_eq_nil_iff fun part hPart => (hParts part hPart).2
  have hNil' : [separator].intercalate others = [] ↔ others = [] :=
    intercalate_eq_nil_iff fun part hPart => (hOthers part hPart).2
  by_cases hSome : parts = []
  · rw [hSome, eq_comm, ← hNil', ← h]
    exact hNil.mpr hSome
  · have hSome' : others ≠ [] := fun hEq => hSome (hNil.mp (h.trans (hNil'.mpr hEq)))
    exact intercalate_injective (fun part hPart => (hParts part hPart).1)
      (fun part hPart => (hOthers part hPart).1) hSome hSome' h

end Intercalate

/-- Lines with the separator in front of each. -/
def behind (separator : Char) (lines : List (List Char)) : List Char :=
  lines.flatMap (separator :: ·)

theorem split_first {first first' rest rest' : List Char} (hFirst : separator ∉ first)
    (hFirst' : separator ∉ first')
    (h : first ++ separator :: rest = first' ++ separator :: rest') :
    first = first' ∧ rest = rest' := by
  induction first generalizing first' with
  | nil =>
      cases first' with
      | nil => exact ⟨rfl, (List.cons.inj h).2⟩
      | cons c _ =>
          obtain ⟨rfl, _⟩ := List.cons.inj h
          simp at hFirst'
  | cons c first ih =>
      cases first' with
      | nil =>
          obtain ⟨rfl, _⟩ := List.cons.inj h
          simp at hFirst
      | cons c' first' =>
          obtain ⟨rfl, hTail⟩ := List.cons.inj h
          obtain ⟨rfl, hRest⟩ := ih (by simp_all) (by simp_all) hTail
          exact ⟨rfl, hRest⟩

theorem split_last {front front' last last' : List Char} (hLast : separator ∉ last)
    (hLast' : separator ∉ last')
    (h : front ++ separator :: last = front' ++ separator :: last') :
    front = front' ∧ last = last' := by
  have hReverse := congrArg List.reverse h
  simp only [List.reverse_append, List.reverse_cons, List.append_assoc, List.singleton_append]
    at hReverse
  obtain ⟨hBack, hFront⟩ := split_first (by simpa using hLast) (by simpa using hLast') hReverse
  exact ⟨List.reverse_inj.mp hFront, List.reverse_inj.mp hBack⟩

/-- Equally many lines split off in one way only. What stands in front may hold separators. -/
theorem append_behind_injective {front front' : List Char} {lines lines' : List (List Char)}
    (hLines : ∀ line ∈ lines, separator ∉ line) (hLines' : ∀ line ∈ lines', separator ∉ line)
    (hLength : lines.length = lines'.length)
    (h : front ++ behind separator lines = front' ++ behind separator lines') :
    front = front' ∧ lines = lines' := by
  induction lines using List.reverseRecOn generalizing lines' with
  | nil =>
      obtain rfl := List.length_eq_zero_iff.mp hLength.symm
      simpa [behind] using h
  | append_singleton lines last ih =>
      obtain rfl | ⟨lines', last', rfl⟩ := List.eq_nil_or_concat lines'
      · simp at hLength
      · simp only [behind, List.concat_eq_append, List.flatMap_append, List.flatMap_singleton,
          ← List.append_assoc] at h
        obtain ⟨hFront, rfl⟩ := split_last (hLines last (by simp)) (hLines' last' (by simp)) h
        obtain ⟨hEq, rfl⟩ := ih (fun line hLine => hLines line (by simp [hLine]))
          (fun line hLine => hLines' line (by simp [hLine])) (by simpa using hLength) hFront
        exact ⟨hEq, by simp⟩

end Text

end DatasetAudit
