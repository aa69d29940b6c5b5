import DatasetAudit.Text.Blank
import Mathlib.Tactic.Common

/-! The lines and the words of a text, said without the functions that find them. A text has one list
of lines and one list of words, and those functions give them. -/

namespace DatasetAudit.Text

/-- A text and its physical lines. Each ends with a line feed, or with a carriage return in front of
one; what follows the last line feed is a line if it is not empty. -/
inductive HasLines : List Char → List (List Char) → Prop where
  | nil : HasLines [] []
  | last {line : List Char} (nonempty : line ≠ []) (plain : '\n' ∉ line) : HasLines line [line]
  | feed {line rest : List Char} {more : List (List Char)} (plain : '\n' ∉ line)
      (bare : line.getLast? ≠ some '\r') (behind : HasLines rest more) :
      HasLines (line ++ '\n' :: rest) (line :: more)
  | returnFeed {line rest : List Char} {more : List (List Char)} (plain : '\n' ∉ line)
      (behind : HasLines rest more) : HasLines (line ++ '\r' :: '\n' :: rest) (line :: more)

/-- A text and its words. A word has no blank, stands between blanks or at an end of the text, and is
not empty. -/
inductive HasWords : List Char → List (List Char) → Prop where
  | blank {gap : List Char} (blank : ∀ c ∈ gap, isBlank c = true) : HasWords gap []
  | word {gap word rest : List Char} {more : List (List Char)}
      (blank : ∀ c ∈ gap, isBlank c = true) (nonempty : word ≠ [])
      (plain : ∀ c ∈ word, isBlank c = false) (apart : ∀ c ∈ rest.head?, isBlank c = true)
      (behind : HasWords rest more) : HasWords (gap ++ word ++ rest) (word :: more)

section Lines

variable {text line rest : List Char} {found more : List (List Char)} {c : Char}

theorem HasLines.cons (h : HasLines text found) (hFeed : c ≠ '\n') :
    ∃ found', HasLines (c :: text) found' := by
  have hSingle : '\n' ∉ [c] := by simpa using hFeed.symm
  cases h with
  | nil => exact ⟨_, .last (List.cons_ne_nil c []) hSingle⟩
  | last _ hPlain => exact ⟨_, .last (by simp) (by simp [hPlain, hFeed.symm])⟩
  | @feed line rest more hPlain hBare hRest =>
      cases line with
      | nil =>
          by_cases hReturn : c = '\r'
          · subst hReturn
            exact ⟨_, .returnFeed hPlain hRest⟩
          · exact ⟨_, .feed hSingle (by simpa using hReturn) hRest⟩
      | cons first line =>
          have hPlain' : '\n' ∉ c :: first :: line :=
            List.not_mem_cons_of_ne_of_not_mem hFeed.symm hPlain
          exact ⟨_, .feed hPlain' (by rwa [List.getLast?_cons_cons]) hRest⟩
  | @returnFeed line _ _ hPlain hRest =>
      have hPlain' : '\n' ∉ c :: line := List.not_mem_cons_of_ne_of_not_mem hFeed.symm hPlain
      exact ⟨_, .returnFeed hPlain' hRest⟩

/-- Every text has lines. -/
theorem exists_hasLines (text : List Char) : ∃ found, HasLines text found := by
  induction text with
  | nil => exact ⟨_, .nil⟩
  | cons c text ih =>
      obtain ⟨found, hFound⟩ := ih
      by_cases hFeed : c = '\n'
      · subst hFeed
        exact ⟨_, .feed List.not_mem_nil nofun hFound⟩
      · exact hFound.cons hFeed

/-- A character goes to the front of the first line, if it is no line feed and not the carriage
return of one. -/
theorem lines_cons (hFeed : c ≠ '\n') (hReturn : c = '\r' → rest.head? ≠ some '\n')
    (h : lines rest = line :: more) : lines (c :: rest) = (c :: line) :: more := by
  have hRest : rest.isEmpty = false := by
    cases rest with
    | nil => cases h
    | cons _ _ => rfl
  rw [lines.eq_def]
  split
  · rename_i hText
    cases hText
  · rename_i hText
    obtain ⟨rfl, rfl⟩ := List.cons.inj hText
    exact absurd rfl (hReturn rfl)
  · rename_i hText
    exact absurd (List.cons.inj hText).1 hFeed
  · rename_i hText
    obtain ⟨rfl, rfl⟩ := List.cons.inj hText
    simp only [hRest, h, Bool.false_eq_true, if_false]

theorem lines_last (hNonempty : line ≠ []) (hPlain : '\n' ∉ line) : lines line = [line] := by
  induction line with
  | nil => exact absurd rfl hNonempty
  | cons c line ih =>
      rw [List.mem_cons, not_or] at hPlain
      cases line with
      | nil => simp [lines, (Ne.symm hPlain.1)]
      | cons next line =>
          apply lines_cons (Ne.symm hPlain.1) _ (ih (by simp) hPlain.2)
          intro _ hNext
          obtain rfl := Option.some.inj hNext
          exact hPlain.2 List.mem_cons_self

/-- A line goes to the front of what begins with an empty one. -/
theorem lines_append (hPlain : '\n' ∉ line) (hRest : lines rest = [] :: more)
    (hReturn : line.getLast? = some '\r' → rest.head? ≠ some '\n') :
    lines (line ++ rest) = line :: more := by
  induction line with
  | nil => exact hRest
  | cons c line ih =>
      rw [List.mem_cons, not_or] at hPlain
      apply lines_cons (Ne.symm hPlain.1)
      · rintro rfl hHead
        cases line with
        | nil => exact hReturn rfl hHead
        | cons next line =>
            obtain rfl : next = '\n' := Option.some.inj hHead
            exact hPlain.2 List.mem_cons_self
      · apply ih hPlain.2
        intro hLast
        apply hReturn
        cases line with
        | nil => cases hLast
        | cons next line => rwa [List.getLast?_cons_cons]

theorem HasLines.eq (h : HasLines text found) : lines text = found := by
  induction h with
  | nil => rfl
  | last hNonempty hPlain => exact lines_last hNonempty hPlain
  | feed hPlain hBare _ ih =>
      apply lines_append hPlain
      · rw [lines, ih]
      · exact fun hReturn => absurd hReturn hBare
  | returnFeed hPlain _ ih =>
      apply lines_append hPlain
      · rw [lines, ih]
      · exact fun _ => by simp

/-- A text has one list of lines. -/
theorem hasLines_iff : HasLines text found ↔ found = lines text := by
  constructor
  · exact fun h => h.eq.symm
  · rintro rfl
    obtain ⟨found, hFound⟩ := exists_hasLines text
    rwa [hFound.eq]

end Lines

section Words

variable {text gap word rest : List Char} {found : List (List Char)}

theorem words_append_blank (hBlank : ∀ c ∈ gap, isBlank c = true) (text : List Char) :
    words (gap ++ text) = words text := by
  induction gap with
  | nil => rfl
  | cons c gap ih =>
      rw [List.forall_mem_cons] at hBlank
      rw [← ih hBlank.2, words, List.cons_append, List.splitOnP_cons_eq_if_modifyHead,
        if_pos hBlank.1]
      rfl

theorem words_of_plain (hNonempty : word ≠ []) (hPlain : ∀ c ∈ word, isBlank c = false) :
    words word = [word] := by
  rw [words, List.splitOnP_eq_singleton hPlain]
  simp [hNonempty]

theorem words_append_word (hNonempty : word ≠ []) (hPlain : ∀ c ∈ word, isBlank c = false)
    (hApart : ∀ c ∈ rest.head?, isBlank c = true) : words (word ++ rest) = word :: words rest := by
  cases rest with
  | nil => rw [List.append_nil, words_of_plain hNonempty hPlain]; rfl
  | cons c rest =>
      have hBlank : isBlank c = true := hApart c rfl
      have hSplit : words (word ++ c :: rest) = words word ++ words rest := by
        rw [words, List.splitOnP_append_cons word rest hBlank, List.filter_append]
        rfl
      have hSkip : words (c :: rest) = words rest :=
        words_append_blank (List.forall_mem_singleton.mpr hBlank) rest
      rw [hSplit, words_of_plain hNonempty hPlain, hSkip]
      rfl

theorem HasWords.eq (h : HasWords text found) : words text = found := by
  induction h with
  | @blank gap hBlank =>
      rw [← List.append_nil gap, words_append_blank hBlank]
      rfl
  | word hBlank hNonempty hPlain hApart _ ih =>
      rw [List.append_assoc, words_append_blank hBlank, words_append_word hNonempty hPlain hApart,
        ih]

/-- Every text has words. -/
theorem exists_hasWords (text : List Char) : ∃ found, HasWords text found := by
  have hBlank : ∀ c ∈ text.takeWhile isBlank, isBlank c = true :=
    List.all_eq_true.mp List.all_takeWhile
  have hText := List.takeWhile_append_dropWhile (p := isBlank) (l := text)
  cases hBehind : text.dropWhile isBlank with
  | nil =>
      rw [hBehind, List.append_nil] at hText
      exact ⟨[], .blank (hText ▸ hBlank)⟩
  | cons c behind =>
      -- The first word begins with `c` and goes up to the next blank.
      have hFirst : isBlank c = false := by
        simpa [hBehind] using List.head_dropWhile_not isBlank (l := text) (by simp [hBehind])
      have hPlain : ∀ d ∈ c :: behind.takeWhile (!isBlank ·), isBlank d = false := by
        rw [List.forall_mem_cons]
        refine ⟨hFirst, fun d hMem => ?_⟩
        simpa using List.all_eq_true.mp List.all_takeWhile d hMem
      have hApart : ∀ d ∈ (behind.dropWhile (!isBlank ·)).head?, isBlank d = true := by
        intro d hHead
        have hNot := List.head?_dropWhile_not (!isBlank ·) behind
        rw [hHead] at hNot
        simpa using hNot
      have hShorter : (behind.dropWhile (!isBlank ·)).length < text.length := by
        have hLength := congrArg List.length hText
        have hDropped := (List.dropWhile_sublist (!isBlank ·) (l := behind)).length_le
        rw [List.length_append, hBehind, List.length_cons] at hLength
        omega
      obtain ⟨found, hFound⟩ := exists_hasWords (behind.dropWhile (!isBlank ·))
      have hWhole : text.takeWhile isBlank ++ (c :: behind.takeWhile (!isBlank ·)) ++
          behind.dropWhile (!isBlank ·) = text := by
        rw [List.append_assoc, List.cons_append, List.takeWhile_append_dropWhile, ← hBehind, hText]
      have hWords := HasWords.word hBlank (List.cons_ne_nil _ _) hPlain hApart hFound
      rw [hWhole] at hWords
      exact ⟨_, hWords⟩
termination_by text.length

/-- A text has one list of words. -/
theorem hasWords_iff : HasWords text found ↔ found = words text := by
  constructor
  · exact fun h => h.eq.symm
  · rintro rfl
    obtain ⟨found, hFound⟩ := exists_hasWords text
    rwa [hFound.eq]

/-- A text without words is blank. -/
theorem words_eq_nil_iff : words text = [] ↔ ∀ c ∈ text, isBlank c = true := by
  rw [eq_comm, ← hasWords_iff]
  constructor
  · intro h
    cases h with
    | blank hBlank => exact hBlank
  · exact .blank

end Words

end DatasetAudit.Text
