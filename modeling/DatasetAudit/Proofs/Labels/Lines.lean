import DatasetAudit.Labels
import DatasetAudit.Proofs.Grouping
import DatasetAudit.Proofs.Text.Lines
import Mathlib.Data.List.Forall2

/-! The lines of a label file. Each line with a word is an annotation or an error, told by its number;
which of them it is, and what it says, depends on its own words alone. -/

namespace DatasetAudit

namespace Text

/-- The line with a number, the first line having number one. -/
def lineAt? (lines : List (List Char)) : Nat → Option (List Char)
  | 0 => none
  | n + 1 => lines[n]?

theorem le_length_of_lineAt? {lines : List (List Char)} {n : Nat} {raw : List Char}
    (h : lineAt? lines n = some raw) : n ≤ lines.length := by
  cases n with
  | zero => exact Nat.zero_le _
  | succ n =>
      obtain ⟨hLt, -⟩ := List.getElem?_eq_some_iff.mp h
      exact hLt

end Text

namespace Labels

section Words

/-- A step on options succeeds on a list if it does so on each item. -/
theorem mapM_eq_some_iff {α β : Type} {f : α → Option β} {items : List α} {results : List β} :
    items.mapM f = some results ↔ List.Forall₂ (fun item b => f item = some b) items results := by
  induction items generalizing results with
  | nil =>
      rw [List.forall₂_nil_left_iff, List.mapM_nil]
      exact ⟨fun h => (Option.some.inj h).symm, fun h => h ▸ rfl⟩
  | cons item items ih =>
      simp only [List.mapM_cons, List.forall₂_cons_left_iff, Option.bind_eq_bind,
        Option.bind_eq_some_iff, Option.pure_def, Option.some.injEq, ih]
      constructor
      · rintro ⟨first, hFirst, rest, hRest, rfl⟩
        exact ⟨first, rest, hFirst, hRest, rfl⟩
      · rintro ⟨first, rest, hFirst, hRest, rfl⟩
        exact ⟨first, hFirst, rest, hRest, rfl⟩

theorem mapM_eq_none_iff {α β : Type} {f : α → Option β} {items : List α} :
    items.mapM f = none ↔ ∃ item ∈ items, f item = none := by
  induction items with
  | nil => simp
  | cons item items ih =>
      rw [List.exists_mem_cons_iff, ← ih, List.mapM_cons]
      cases f item with
      | none => simp
      | some b => cases items.mapM f <;> simp

/-- The numbers of words that an annotation can have: a class and a box, or a class and the corners
of a polygon, of which there are three or more. -/
def IsCount (count : Nat) : Prop :=
  count = 5 ∨ 7 ≤ count ∧ count % 2 = 1

/-- Words that are numbers, and their values. -/
def AreNumbers (words : List (List Char)) (values : List Float) : Prop :=
  List.Forall₂ (fun word value => Decimal.float? word = some value) words values

/-- Words that are an annotation, and the row that it gives, on whatever line. A box is kept as its
four numbers, a polygon as all of its coordinates. -/
inductive Annotates : List (List Char) → AnnotationRow → Prop where
  | box {line : UInt32} {first : List Char} {rest : List (List Char)} {classId : Int64}
      {x y width height : Float} (hClass : Decimal.int64? first = some classId)
      (hValues : AreNumbers rest [x, y, width, height]) :
      Annotates (first :: rest) ⟨line, classId, ⟨x, y, width, height⟩, none⟩
  | polygon {line : UInt32} {first : List Char} {rest : List (List Char)} {classId : Int64}
      {values : List Float} (hCount : 7 ≤ (first :: rest).length ∧ (first :: rest).length % 2 = 1)
      (hClass : Decimal.int64? first = some classId) (hValues : AreNumbers rest values) :
      Annotates (first :: rest) ⟨line, classId, enclosingBox values, some values⟩

/-- Words that are no annotation, and why. A wrong number of words counts before what they are. -/
inductive Faulty : List (List Char) → String → Prop where
  | count {words : List (List Char)} (hNonempty : words ≠ []) (hCount : ¬ IsCount words.length) :
      Faulty words "expected_5_tokens_or_valid_polygon"
  | number {first : List Char} {rest : List (List Char)} (hCount : IsCount (first :: rest).length)
      (hNumber : Decimal.int64? first = none ∨ ∃ word ∈ rest, Decimal.float? word = none) :
      Faulty (first :: rest) "non_numeric"

variable {line : UInt32} {first : List Char} {rest words : List (List Char)} {row : AnnotationRow}
  {values : List Float} {fault : RowFault} {reason : String}

theorem isCount_iff {count : Nat} :
    IsCount count ↔ (!isBoxCount count && !isPolygonCount count) = false := by
  rw [← Bool.not_or, Bool.not_eq_false', IsCount]
  simp [isBoxCount, isPolygonCount]

theorem AreNumbers.length_eq (h : AreNumbers rest values) : rest.length = values.length :=
  List.Forall₂.length_eq h

/-- Words in the right number are read one by one. -/
theorem readRow_of_isCount (h : IsCount (first :: rest).length) : readRow line (first :: rest) =
    match Decimal.int64? first, rest.mapM Decimal.float? with
    | some classId, some values =>
      match values with
      | [x, y, width, height] => .ok ⟨line, classId, ⟨x, y, width, height⟩, none⟩
      | corners => .ok ⟨line, classId, enclosingBox corners, some corners⟩
    | _, _ => .error .nonNumeric := by
  rw [readRow, isCount_iff.mp h]
  rfl

theorem readRow_of_not_isCount (h : ¬ IsCount words.length) :
    readRow line words = .error .tokenCount := by
  rw [isCount_iff, Bool.not_eq_false] at h
  unfold readRow
  rw [if_pos h]

theorem Annotates.isCount (h : Annotates words row) : IsCount words.length := by
  cases h with
  | box _ hValues => exact .inl (congrArg (· + 1) hValues.length_eq)
  | polygon hCount => exact .inr hCount

/-- A row is read from the words of an annotation. -/
theorem readRow_eq_ok_iff : readRow line words = .ok row ↔ row.line = line ∧ Annotates words row := by
  by_cases hCount : IsCount words.length
  · cases words with
    | nil => exact absurd hCount (by simp [IsCount])
    | cons first rest =>
        rw [readRow_of_isCount hCount]
        constructor
        · intro h
          split at h
          · rename_i classId values hClass hValues
            have hNumbers : AreNumbers rest values := mapM_eq_some_iff.mp hValues
            split at h
            · obtain rfl := Except.ok.inj h
              exact ⟨rfl, .box hClass hNumbers⟩
            · rename_i hLong
              obtain rfl := Except.ok.inj h
              refine ⟨rfl, .polygon (hCount.resolve_left fun hFive => ?_) hClass hNumbers⟩
              -- Four numbers would have been a box.
              rw [List.length_cons, hNumbers.length_eq] at hFive
              match values with
              | [x, y, width, height] => exact hLong x y width height rfl
          · cases h
        · rintro ⟨rfl, h⟩
          cases h with
          | box hClass hValues => simp only [hClass, mapM_eq_some_iff.mpr hValues]
          | polygon hLength hClass hValues =>
              simp only [hClass, mapM_eq_some_iff.mpr hValues]
              split
              · rw [List.length_cons, hValues.length_eq] at hLength
                simp at hLength
              · rfl
  · rw [readRow_of_not_isCount hCount]
    constructor
    · nofun
    · exact fun ⟨_, h⟩ => absurd h.isCount hCount

/-- Words that are no annotation are refused for their fault. -/
theorem readRow_eq_error_iff : (∃ fault, readRow line (first :: rest) = .error fault ∧
    fault.reason = reason) ↔ Faulty (first :: rest) reason := by
  by_cases hCount : IsCount (first :: rest).length
  · rw [readRow_of_isCount hCount]
    constructor
    · rintro ⟨fault, h, rfl⟩
      split at h
      · split at h <;> cases h
      · rename_i hNumbers
        obtain rfl := Except.error.inj h
        refine .number hCount ?_
        rw [← mapM_eq_none_iff]
        cases hClass : Decimal.int64? first with
        | none => exact .inl rfl
        | some classId =>
            refine .inr (Option.eq_none_iff_forall_ne_some.mpr fun values hValues => ?_)
            exact hNumbers classId values hClass hValues
    · intro h
      cases h with
      | count _ hOther => exact absurd hCount hOther
      | number _ hNumber =>
          refine ⟨.nonNumeric, ?_, rfl⟩
          rw [← mapM_eq_none_iff] at hNumber
          rcases hNumber with hClass | hRest
          · rw [hClass]
          · rw [hRest]
            cases Decimal.int64? first <;> rfl
  · rw [readRow_of_not_isCount hCount]
    constructor
    · rintro ⟨fault, h, rfl⟩
      obtain rfl := Except.error.inj h
      exact .count (List.cons_ne_nil _ _) hCount
    · intro h
      cases h with
      | count => exact ⟨.tokenCount, rfl, rfl⟩
      | number hOther => exact absurd hOther hCount

end Words

section Line

variable {line : UInt32} {raw : List Char} {words : List (List Char)} {row : AnnotationRow}
  {error : RowError} {outcome : Except RowError AnnotationRow}

/-- The number of the line that was read. -/
def lineOf : Except RowError AnnotationRow → UInt32
  | .ok row => row.line
  | .error error => error.line

theorem lineOf_readLine (h : readLine line raw = some outcome) : lineOf outcome = line := by
  unfold readLine at h
  split at h
  · cases h
  · split at h
    · rename_i row hRow
      obtain rfl := Option.some.inj h
      exact (readRow_eq_ok_iff.mp hRow).1
    · obtain rfl := Option.some.inj h
      rfl

theorem readLine_eq_none_iff : readLine line raw = none ↔ ∀ c ∈ raw, Text.isBlank c = true := by
  rw [← Text.words_eq_nil_iff]
  unfold readLine
  split
  · simp_all
  · rename_i hWords
    constructor
    · intro h
      split at h <;> cases h
    · exact fun hNil => absurd hNil hWords

/-- What a line with words holds comes from them, and an error keeps the whole line. -/
theorem readLine_of_words (h : Text.words raw ≠ []) : readLine line raw =
    match readRow line (Text.words raw) with
    | .ok row => some (.ok row)
    | .error fault => some (.error ⟨line, String.ofList raw, fault.reason⟩) := by
  unfold readLine
  split
  · exact absurd ‹_› h
  · rfl

theorem readLine_eq_row_iff : readLine line raw = some (.ok row) ↔
    row.line = line ∧ ∃ words, Text.HasWords raw words ∧ Annotates words row := by
  simp only [Text.hasWords_iff, exists_eq_left, ← readRow_eq_ok_iff]
  by_cases hWords : Text.words raw = []
  · rw [readLine, hWords]
    exact ⟨nofun, nofun⟩
  · rw [readLine_of_words hWords]
    cases readRow line (Text.words raw) <;> simp

theorem readLine_eq_error_iff : readLine line raw = some (.error error) ↔
    error.line = line ∧ error.raw = String.ofList raw ∧
      ∃ words, Text.HasWords raw words ∧ Faulty words error.reason := by
  simp only [Text.hasWords_iff, exists_eq_left]
  cases hWords : Text.words raw with
  | nil =>
      rw [readLine, hWords]
      refine ⟨nofun, fun ⟨_, _, h⟩ => ?_⟩
      generalize error.reason = reason at h
      cases h with
      | count hNonempty => exact absurd rfl hNonempty
  | cons first rest =>
      have hFaulty : Faulty (first :: rest) error.reason ↔
          ∃ fault, readRow line (first :: rest) = .error fault ∧ fault.reason = error.reason :=
        readRow_eq_error_iff.symm
      rw [readLine_of_words (by rw [hWords]; exact List.cons_ne_nil _ _), hWords, hFaulty]
      cases readRow line (first :: rest) with
      | ok row => simp
      | error fault =>
          obtain ⟨line', raw', reason'⟩ := error
          simp only [Option.some.injEq, Except.error.injEq, RowError.mk.injEq, exists_eq_left']
          grind

end Line

section Lines

variable {text : List Char} {n : Nat} {raw : List Char} {row : AnnotationRow} {error : RowError}
  {outcome : Except RowError AnnotationRow}

theorem mem_readLines_iff (hShort : (Text.lines text).length < UInt32.size) :
    outcome ∈ readLines text ↔ ∃ raw, Text.lineAt? (Text.lines text) (lineOf outcome).toNat = some raw ∧
      readLine (lineOf outcome) raw = some outcome := by
  rw [readLines, List.mem_filterMap]
  constructor
  · rintro ⟨⟨raw, position⟩, hLine, hRead⟩
    have hBound := List.snd_lt_of_mem_zipIdx hLine
    have hNumber := lineOf_readLine hRead
    refine ⟨raw, ?_, hNumber ▸ hRead⟩
    rw [hNumber, UInt32.toNat_ofNat_of_lt' (by omega)]
    exact List.mem_zipIdx_iff_getElem?.mp hLine
  · rintro ⟨raw, hLine, hRead⟩
    cases hNumber : (lineOf outcome).toNat with
    | zero =>
        rw [hNumber] at hLine
        cases hLine
    | succ position =>
        rw [hNumber] at hLine
        refine ⟨(raw, position), List.mem_zipIdx_iff_getElem?.mpr hLine, ?_⟩
        change readLine (UInt32.ofNat (position + 1)) raw = some outcome
        rw [← hNumber, UInt32.ofNat_toNat]
        exact hRead

/-- The numbers of lines rise, as long as they do not overflow. -/
theorem readLines_ascending (hShort : (Text.lines text).length < UInt32.size) :
    (readLines text).Pairwise fun outcome other => lineOf outcome < lineOf other := by
  have hPositions : (Text.lines text).zipIdx.Pairwise fun item other => item.2 < other.2 := by
    rw [← List.pairwise_map (f := Prod.snd) (R := (· < ·)), List.zipIdx_map_snd]
    exact List.pairwise_lt_range'
  have hNumbers : (Text.lines text).zipIdx.Pairwise fun item other =>
      UInt32.ofNat (item.2 + 1) < UInt32.ofNat (other.2 + 1) := by
    apply hPositions.imp_of_mem
    intro item other hItem hOther hLt
    have hBound := List.snd_lt_of_mem_zipIdx hItem
    have hBound' := List.snd_lt_of_mem_zipIdx hOther
    rw [UInt32.lt_iff_toNat_lt, UInt32.toNat_ofNat_of_lt' (by omega),
      UInt32.toNat_ofNat_of_lt' (by omega)]
    omega
  apply hNumbers.filterMap
  intro item other hLt outcome hOutcome outcome' hOutcome'
  rw [lineOf_readLine hOutcome, lineOf_readLine hOutcome']
  exact hLt

/-- What stands on one line. -/
theorem filter_readLines (hShort : (Text.lines text).length < UInt32.size) (n : Nat) :
    (readLines text).filter (fun outcome => (lineOf outcome).toNat = n) =
      ((Text.lineAt? (Text.lines text) n).bind (readLine (UInt32.ofNat n))).toList := by
  have hAscending : Ascending lineOf (readLines text) :=
    (readLines_ascending hShort).imp fun hLt => Std.compare_eq_lt.mpr hLt
  have hKept : Ascending lineOf
      ((readLines text).filter fun outcome => (lineOf outcome).toNat = n) := hAscending.filter _
  apply hKept.eq_of_mem_iff
  · cases (Text.lineAt? (Text.lines text) n).bind (readLine (UInt32.ofNat n)) with
    | none => exact .nil
    | some outcome => exact List.pairwise_singleton _ _
  · intro outcome
    rw [List.mem_filter, mem_readLines_iff hShort, decide_eq_true_eq, Option.mem_toList,
      Option.bind_eq_some_iff]
    constructor
    · rintro ⟨⟨raw, hLine, hRead⟩, rfl⟩
      exact ⟨raw, hLine, by rwa [UInt32.ofNat_toNat]⟩
    · rintro ⟨raw, hLine, hRead⟩
      have hBound := Text.le_length_of_lineAt? hLine
      have hNumber : (lineOf outcome).toNat = n := by
        rw [lineOf_readLine hRead, UInt32.toNat_ofNat_of_lt' (by omega)]
      refine ⟨⟨raw, hNumber.symm ▸ hLine, ?_⟩, hNumber⟩
      rwa [lineOf_readLine hRead]

/-- Every line with something else than blanks holds something, and nothing else does. -/
theorem exists_mem_readLines_iff (hShort : (Text.lines text).length < UInt32.size) :
    (∃ outcome ∈ readLines text, (lineOf outcome).toNat = n) ↔
      ∃ raw, Text.lineAt? (Text.lines text) n = some raw ∧ ∃ c ∈ raw, Text.isBlank c = false := by
  have hFound : (∃ outcome ∈ readLines text, (lineOf outcome).toNat = n) ↔
      ∃ outcome, (Text.lineAt? (Text.lines text) n).bind (readLine (UInt32.ofNat n)) =
        some outcome := by
    simp only [← Option.mem_toList, ← filter_readLines hShort, List.mem_filter, decide_eq_true_eq]
  have hSome (raw : List Char) : (∃ outcome, readLine (UInt32.ofNat n) raw = some outcome) ↔
      ∃ c ∈ raw, Text.isBlank c = false := by
    rw [← Option.ne_none_iff_exists', ne_eq, readLine_eq_none_iff]
    simp
  simp only [hFound, Option.bind_eq_some_iff, ← hSome]
  exact ⟨fun ⟨outcome, raw, hLine, hRead⟩ => ⟨raw, hLine, outcome, hRead⟩,
    fun ⟨raw, hLine, outcome, hRead⟩ => ⟨outcome, raw, hLine, hRead⟩⟩

theorem row?_eq_some_iff : row? outcome = some row ↔ outcome = .ok row := by
  cases outcome <;> simp [row?]

theorem error?_eq_some_iff : error? outcome = some error ↔ outcome = .error error := by
  cases outcome <;> simp [error?]

theorem mem_filterMap_row? {outcomes : List (Except RowError AnnotationRow)} :
    row ∈ outcomes.filterMap row? ↔ .ok row ∈ outcomes := by
  simp only [List.mem_filterMap, row?_eq_some_iff, exists_eq_right]

theorem mem_filterMap_error? {outcomes : List (Except RowError AnnotationRow)} :
    error ∈ outcomes.filterMap error? ↔ .error error ∈ outcomes := by
  simp only [List.mem_filterMap, error?_eq_some_iff, exists_eq_right]

end Lines

/-- Rows and errors account for lines: every line with something else than blanks is one of them and
nothing else is, each is told by its number, and the grammar decides which one a line is and what is
kept of it. -/
structure Accounts (lines : List (List Char)) (rows : List AnnotationRow) (errors : List RowError) :
    Prop where
  numbers : ∀ n, (n ∈ rows.map (·.line.toNat) ∨ n ∈ errors.map (·.line.toNat)) ↔
    ∃ raw, Text.lineAt? lines n = some raw ∧ ∃ c ∈ raw, Text.isBlank c = false
  apart : ∀ row ∈ rows, ∀ error ∈ errors, row.line ≠ error.line
  ascending : rows.Pairwise fun row other => row.line < other.line
  errorsAscending : errors.Pairwise fun error other => error.line < other.line
  rows : ∀ row, row ∈ rows ↔ ∃ raw words, Text.lineAt? lines row.line.toNat = some raw ∧
    Text.HasWords raw words ∧ Annotates words row
  errors : ∀ error, error ∈ errors ↔ ∃ raw words,
    Text.lineAt? lines error.line.toNat = some raw ∧ Text.HasWords raw words ∧
      error.raw = String.ofList raw ∧ Faulty words error.reason

section Parse

variable {text : List Char} (hShort : (Text.lines text).length < UInt32.size)

include hShort

theorem mem_rows_iff {row : AnnotationRow} : row ∈ (readLines text).filterMap row? ↔
    ∃ raw, Text.lineAt? (Text.lines text) row.line.toNat = some raw ∧
      readLine row.line raw = some (.ok row) := by
  rw [mem_filterMap_row?, mem_readLines_iff hShort]
  rfl

theorem mem_errors_iff {error : RowError} : error ∈ (readLines text).filterMap error? ↔
    ∃ raw, Text.lineAt? (Text.lines text) error.line.toNat = some raw ∧
      readLine error.line raw = some (.error error) := by
  rw [mem_filterMap_error?, mem_readLines_iff hShort]
  rfl

theorem accounts_readLines : Accounts (Text.lines text) ((readLines text).filterMap row?)
    ((readLines text).filterMap error?) where
  numbers n := by
    rw [← exists_mem_readLines_iff hShort]
    simp only [List.mem_map, mem_filterMap_row?, mem_filterMap_error?]
    constructor
    · rintro (⟨row, hRow, hNumber⟩ | ⟨error, hError, hNumber⟩)
      · exact ⟨_, hRow, hNumber⟩
      · exact ⟨_, hError, hNumber⟩
    · rintro ⟨outcome, hMem, hNumber⟩
      cases outcome with
      | ok row => exact .inl ⟨row, hMem, hNumber⟩
      | error error => exact .inr ⟨error, hMem, hNumber⟩
  apart row hRow error hError hSame := by
    obtain ⟨raw, hLine, hRead⟩ := (mem_rows_iff hShort).mp hRow
    obtain ⟨other, hOther, hRefused⟩ := (mem_errors_iff hShort).mp hError
    rw [← hSame] at hOther hRefused
    obtain rfl : raw = other := Option.some.inj (hLine.symm.trans hOther)
    cases hRead.symm.trans hRefused
  ascending := by
    apply (readLines_ascending hShort).filterMap
    intro outcome other hLt row hRow row' hRow'
    obtain rfl := row?_eq_some_iff.mp hRow
    obtain rfl := row?_eq_some_iff.mp hRow'
    exact hLt
  errorsAscending := by
    apply (readLines_ascending hShort).filterMap
    intro outcome other hLt error hError error' hError'
    obtain rfl := error?_eq_some_iff.mp hError
    obtain rfl := error?_eq_some_iff.mp hError'
    exact hLt
  rows row := by
    rw [mem_rows_iff hShort]
    simp only [readLine_eq_row_iff, true_and, exists_and_left]
  errors error := by
    rw [mem_errors_iff hShort]
    simp only [readLine_eq_error_iff, true_and]
    constructor
    · rintro ⟨raw, hLine, hRaw, words, hWords, hFaulty⟩
      exact ⟨raw, words, hLine, hWords, hRaw, hFaulty⟩
    · rintro ⟨raw, words, hLine, hWords, hRaw, hFaulty⟩
      exact ⟨raw, hLine, hRaw, words, hWords, hFaulty⟩

end Parse

/-- The labels in a text account for its physical lines. -/
theorem parse_accounts (text : String) (hShort : (Text.lines text.toList).length < UInt32.size) :
    (∀ lines, Text.HasLines text.toList lines ↔ lines = Text.lines text.toList) ∧
      ∃ rows errors, parse text = .parsed rows errors ∧
        Accounts (Text.lines text.toList) rows errors :=
  ⟨fun _ => Text.hasLines_iff, _, _, rfl, accounts_readLines hShort⟩

/-- A box, a blank line, a word that is no number among too few, one among five, and a polygon in a
last line without an end. -/
def mixedText : String :=
  "0 .5 .5 .1 .1\r\n \u3000\r\n1 x\n1 x .5 .1 .1 \r\n7 0 0 1 0 1 1"

theorem mixedText_accounts : (Text.lines mixedText.toList).length < UInt32.size ∧
    ∃ rows errors, parse mixedText = .parsed rows errors ∧
      Accounts (Text.lines mixedText.toList) rows errors ∧
        rows.map (fun row => (row.line, row.polygon.map List.length)) =
          [(1, none), (5, some 6)] ∧
        errors = [⟨3, "1 x", "expected_5_tokens_or_valid_polygon"⟩,
          ⟨4, "1 x .5 .1 .1 ", "non_numeric"⟩] := by
  have hShort : (Text.lines mixedText.toList).length < UInt32.size := by decide +kernel
  obtain ⟨-, rows, errors, hParse, hAccounts⟩ := parse_accounts mixedText hShort
  have hRows : (parse mixedText).rows.map (fun row => (row.line, row.polygon.map List.length)) =
      [(1, none), (5, some 6)] := by decide +kernel
  have hErrors : (parse mixedText).errors = [⟨3, "1 x", "expected_5_tokens_or_valid_polygon"⟩,
      ⟨4, "1 x .5 .1 .1 ", "non_numeric"⟩] := by decide +kernel
  rw [hParse] at hRows hErrors
  exact ⟨hShort, rows, errors, hParse, hAccounts, hRows, hErrors⟩

end Labels

end DatasetAudit
