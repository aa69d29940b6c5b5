import DatasetAudit.Proofs.Check.Origin
import DatasetAudit.Proofs.Labels.Lines

/-! Findings about single lines of label files. What is found on a line depends on that line and its
number, so other lines may be edited, added or broken without changing it. -/

namespace DatasetAudit

namespace Finding

/-- The number of the line that a finding is about, if its metrics give one. -/
def line? (finding : Finding) : Option Int :=
  (finding.metric? "line").bind Json.integer?

/-- Whether a finding is about the line with a number. -/
def isOnLine (n : Nat) (finding : Finding) : Bool :=
  finding.line? == some (n : Int)

variable {finding : Finding}

@[simp] theorem line?_ofClass (finding : Finding) (row : AnnotationRow) :
    (finding.ofClass row).line? = finding.line? := by
  unfold ofClass
  split <;> rfl

theorem isOnLine_eq {line : UInt32} (h : finding.line? = some (line.toNat : Int)) (n : Nat) :
    finding.isOnLine n = decide (line.toNat = n) := by
  rw [isOnLine, h, Bool.eq_iff_iff, beq_iff_eq, decide_eq_true_eq, Option.some.injEq,
    Int.natCast_inj]

end Finding

namespace Labels

/-- What was read from a line, if there is such a line. -/
def onLine (text : List Char) (n : Nat) : List (Except RowError AnnotationRow) :=
  ((Text.lineAt? (Text.lines text) n).bind (readLine (UInt32.ofNat n))).toList

/-- The rows and the errors on a line are those that were read from it. -/
theorem filter_parse {text : String} (hShort : (Text.lines text.toList).length < UInt32.size)
    (n : Nat) : ∃ rows errors, parse text = .parsed rows errors ∧
      rows.filter (fun row => row.line.toNat = n) = (onLine text.toList n).filterMap row? ∧
      errors.filter (fun error => error.line.toNat = n) =
        (onLine text.toList n).filterMap error? := by
  refine ⟨_, _, rfl, ?_, ?_⟩
  · rw [onLine, ← filter_readLines hShort]
    apply filter_filterMap_eq
    intro outcome row hRow
    rw [row?_eq_some_iff.mp hRow]
    rfl
  · rw [onLine, ← filter_readLines hShort]
    apply filter_filterMap_eq
    intro outcome error hError
    rw [error?_eq_some_iff.mp hError]
    rfl

end Labels

section Entry

variable {entry : IndexEntry} {row : AnnotationRow}

theorem Integrity.line?_of_mem_rowFindings {classCount : Nat} :
    ∀ f ∈ rowFindings entry classCount row, f.line? = some (row.line.toNat : Int) :=
  forall_mem_rowFindings (P := (·.line? = some (row.line.toNat : Int))) rfl
    (Finding.line?_ofClass _ row)

theorem BoxSanity.line?_of_mem_rowFindings {config : BoxSanityConfig} :
    ∀ f ∈ rowFindings config entry row, f.line? = some (row.line.toNat : Int) :=
  forall_mem_rowFindings (P := (·.line? = some (row.line.toNat : Int)))
    (fun _ => Finding.line?_ofClass _ row) (fun _ => Finding.line?_ofClass _ row)
    (fun _ => Finding.line?_ofClass _ row)

end Entry

section Parsed

variable (entry : IndexEntry) (n : Nat) (rows : List AnnotationRow) (errors : List RowError)

/-- The integrity findings on a line are those of its errors and its rows. -/
theorem Integrity.filter_entryFindings (classCount : Nat) :
    (entryFindings { entry with labels := .parsed rows errors } classCount).filter (·.isOnLine n) =
      (errors.filter fun error => error.line.toNat = n).map (malformedRow entry) ++
        (rows.filter fun row => row.line.toNat = n).flatMap (rowFindings entry classCount) := by
  have hErrors : (errors.map (malformedRow entry)).filter (·.isOnLine n) =
      (errors.filter fun error => error.line.toNat = n).map (malformedRow entry) := by
    rw [List.filter_map]
    congr 2
    funext error
    exact Finding.isOnLine_eq rfl n
  have hImage : (entry.imageError.map (corruptImage entry)).toList.filter (·.isOnLine n) = [] := by
    cases entry.imageError <;> rfl
  have hRows : (rows.flatMap (rowFindings entry classCount)).filter (·.isOnLine n) =
      (rows.filter fun row => row.line.toNat = n).flatMap (rowFindings entry classCount) :=
    filter_flatMap_eq fun row _ f hf => Finding.isOnLine_eq (line?_of_mem_rowFindings f hf) n
  change (([] ++ (entry.imageError.map (corruptImage entry)).toList ++ [] ++
    errors.map (malformedRow entry)) ++ rows.flatMap (rowFindings entry classCount)).filter _ = _
  simp only [List.filter_append, List.filter_nil, hImage, hErrors, hRows, List.nil_append]

/-- The box findings on a line are those of its rows. That there are too many is about no line. -/
theorem BoxSanity.filter_entryFindings (config : BoxSanityConfig) :
    (entryFindings config { entry with labels := .parsed rows errors }).filter (·.isOnLine n) =
      (rows.filter fun row => row.line.toNat = n).flatMap (rowFindings config entry) := by
  have hRows : (rows.flatMap (rowFindings config entry)).filter (·.isOnLine n) =
      (rows.filter fun row => row.line.toNat = n).flatMap (rowFindings config entry) :=
    filter_flatMap_eq fun row _ f hf => Finding.isOnLine_eq (line?_of_mem_rowFindings f hf) n
  change ((if config.maxBoxesPerImageWarn < rows.length then [tooMany config entry rows.length]
    else []) ++ rows.flatMap (rowFindings config entry)).filter _ = _
  rw [List.filter_append, hRows]
  split <;> rfl

end Parsed

/-- A line that two label files share has the same findings in both, whatever their other lines. -/
theorem lineFindings_eq (entry : IndexEntry) (classCount : Nat) (config : BoxSanityConfig) (n : Nat)
    (text other : String) (hText : (Text.lines text.toList).length < UInt32.size)
    (hOther : (Text.lines other.toList).length < UInt32.size)
    (hLine : Text.lineAt? (Text.lines text.toList) n = Text.lineAt? (Text.lines other.toList) n) :
    (Integrity.entryFindings { entry with labels := Labels.parse text } classCount).filter
        (·.isOnLine n) =
      (Integrity.entryFindings { entry with labels := Labels.parse other } classCount).filter
        (·.isOnLine n) ∧
    (BoxSanity.entryFindings config { entry with labels := Labels.parse text }).filter
        (·.isOnLine n) =
      (BoxSanity.entryFindings config { entry with labels := Labels.parse other }).filter
        (·.isOnLine n) := by
  obtain ⟨rows, errors, hParse, hRows, hErrors⟩ := Labels.filter_parse hText n
  obtain ⟨rows', errors', hParse', hRows', hErrors'⟩ := Labels.filter_parse hOther n
  have hSame : Labels.onLine text.toList n = Labels.onLine other.toList n := by
    rw [Labels.onLine, Labels.onLine, hLine]
  rw [hParse, hParse']
  constructor
  · rw [Integrity.filter_entryFindings, Integrity.filter_entryFindings, hRows, hRows', hErrors,
      hErrors', hSame]
  · rw [BoxSanity.filter_entryFindings, BoxSanity.filter_entryFindings, hRows, hRows', hSame]

/-- The image that the labels below belong to. -/
def crowded : IndexEntry where
  split := .train
  image := "a.png"
  sizeBytes := 1
  mtimeNs := 1
  labels := .missing

/-- A box of an unknown class that sticks out of the image, on the second line. -/
def sparseText : String :=
  "\n9 .5 .5 2 .01"

/-- The same box behind a polygon and in front of a line that cannot be read. -/
def crowdedText : String :=
  "0 0 0 1 0 1 1\r\n9 .5 .5 2 .01\r\n1 x\n"

theorem crowded_lineFindings : (Text.lines sparseText.toList).length < UInt32.size ∧
    (Text.lines crowdedText.toList).length < UInt32.size ∧
    Text.lineAt? (Text.lines sparseText.toList) 2 =
      Text.lineAt? (Text.lines crowdedText.toList) 2 ∧
    ∃ found narrow, (found.map (·.id), narrow.map (·.id)) =
        ([.integrityInvalidClassId, .integrityCoordOutOfRange], [.bboxExtremeAspectRatio]) ∧
      (Integrity.entryFindings { crowded with labels := Labels.parse sparseText } 2).filter
        (·.isOnLine 2) = found ∧
      (Integrity.entryFindings { crowded with labels := Labels.parse crowdedText } 2).filter
        (·.isOnLine 2) = found ∧
      (BoxSanity.entryFindings {} { crowded with labels := Labels.parse sparseText }).filter
        (·.isOnLine 2) = narrow ∧
      (BoxSanity.entryFindings {} { crowded with labels := Labels.parse crowdedText }).filter
        (·.isOnLine 2) = narrow := by
  have hText : (Text.lines sparseText.toList).length < UInt32.size := by decide +kernel
  have hOther : (Text.lines crowdedText.toList).length < UInt32.size := by decide +kernel
  have hLine : Text.lineAt? (Text.lines sparseText.toList) 2 =
      Text.lineAt? (Text.lines crowdedText.toList) 2 := by decide +kernel
  obtain ⟨hIntegrity, hBoxes⟩ :=
    lineFindings_eq crowded 2 {} 2 sparseText crowdedText hText hOther hLine
  exact ⟨hText, hOther, hLine, _, _, by decide +kernel, rfl, hIntegrity.symm, rfl, hBoxes.symm⟩

end DatasetAudit
