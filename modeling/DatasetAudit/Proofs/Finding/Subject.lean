import DatasetAudit.Finding.About
import DatasetAudit.Finding.Fingerprint
import DatasetAudit.Proofs.Check.Leakage
import DatasetAudit.Proofs.Cluster.Arrival
import DatasetAudit.Proofs.Finding.Order

/-! What a finding is about. The texts that a fingerprint is made from stand in the finding itself, and
the bytes handed to the digest determine them, as long as none of them holds the separator. -/

namespace DatasetAudit

namespace Fingerprint

variable {id other : FindingId} {parts others : List String}

/-- The character that stands in front of every part. -/
def mark : Char := '\x1f'

/-- The text of a message: the name of the kind, and every part behind a separator. -/
theorem message_eq (id : FindingId) (parts : List String) : message id parts =
    Utf8.encode (id.name ++ String.ofList (Text.behind mark (parts.map String.toList))) := by
  rw [message, Utf8.encode_append]
  congr 1
  induction parts with
  | nil => rfl
  | cons part rest ih =>
      have hText : String.ofList (Text.behind mark ((part :: rest).map String.toList)) =
          "\x1f" ++ (part ++ String.ofList (Text.behind mark (rest.map String.toList))) := by
        rw [← String.toList_inj]
        simp [Text.behind, mark]
      have hMark : Utf8.encode "\x1f" = [separator] := by decide
      rw [List.flatMap_cons, ih, hText, Utf8.encode_append, Utf8.encode_append, hMark]
      rfl

theorem mark_notMem_name (id : FindingId) : mark ∉ id.name.toList := by
  cases id <;> decide

/-- Parts behind separators are told apart, however many there are. -/
theorem behind_injective {front front' : List Char} {lines lines' : List (List Char)}
    (hFront : mark ∉ front) (hFront' : mark ∉ front') (hLines : ∀ line ∈ lines, mark ∉ line)
    (hLines' : ∀ line ∈ lines', mark ∉ line)
    (h : front ++ Text.behind mark lines = front' ++ Text.behind mark lines') :
    front = front' ∧ lines = lines' := by
  induction lines generalizing front front' lines' with
  | nil =>
      cases lines' with
      | nil => simpa [Text.behind] using h
      | cons line' lines' =>
          have hFrontEq : front = front' ++ mark :: (line' ++ Text.behind mark lines') := by
            simpa [Text.behind] using h
          simp [hFrontEq] at hFront
  | cons line lines ih =>
      rw [List.forall_mem_cons] at hLines
      cases lines' with
      | nil =>
          have hFrontEq : front' = front ++ mark :: (line ++ Text.behind mark lines) := by
            simpa [Text.behind] using h.symm
          simp [hFrontEq] at hFront'
      | cons line' lines' =>
          rw [List.forall_mem_cons] at hLines'
          obtain ⟨hFirst, hRest⟩ := Text.split_first hFront hFront' (by simpa [Text.behind] using h)
          obtain ⟨rfl, rfl⟩ := ih hLines.1 hLines'.1 hLines.2 hLines'.2 hRest
          exact ⟨hFirst, rfl⟩

/-- Bytes come from one kind and one list of parts, if no part holds a separator. -/
theorem message_injective (hParts : ∀ part ∈ parts, mark ∉ part.toList)
    (hOthers : ∀ part ∈ others, mark ∉ part.toList) (h : message id parts = message other others) :
    id = other ∧ parts = others := by
  rw [message_eq, message_eq] at h
  have hLists := congrArg String.toList (Utf8.encode_injective h)
  simp only [String.toList_append, String.toList_ofList] at hLists
  obtain ⟨hName, hTexts⟩ := behind_injective (mark_notMem_name id) (mark_notMem_name other)
    (by simpa using hParts) (by simpa using hOthers) hLists
  refine ⟨FindingId.name_injective (String.toList_inj.mp hName), ?_⟩
  exact (List.map_inj_right fun _ _ hEq => String.toList_inj.mp hEq).mp hTexts

end Fingerprint

namespace Finding

/-- The texts in a metric: its items if it is a list, and otherwise the one that it is. -/
def metricTexts (finding : Finding) (name : String) : List String :=
  match finding.metric? name with
  | some (.integer n) => [toString n]
  | some (.string text) => [text]
  | some (.array items) => items.filterMap Json.string?
  | _ => []

/-- The number of the class that a message is about. The class of the finding itself is kept in
sixty-four bits only. -/
def classNumber (finding : Finding) : String :=
  String.ofList ((finding.message.toList.drop 6).takeWhile Char.isDigit)

/-- The texts that identify the defect of a finding, read off what the finding says. -/
def subject (finding : Finding) : List String :=
  let split := (finding.split.map Split.name).toList
  let image := split ++ finding.image.toList
  let line := image ++ finding.metricTexts "line"
  match finding.id with
  | .integrityMissingLabel | .integrityCorruptImage | .bboxTooManyPerImage => image
  | .integrityOrphanLabel => split ++ finding.label.toList
  | .integrityMalformedRow => line ++ finding.metricTexts "reason"
  | .integrityInvalidClassId => line ++ (finding.classId.map fun id => toString id.toInt).toList
  | .integrityCoordOutOfRange | .bboxTinyBox | .bboxOversizedBox | .bboxExtremeAspectRatio => line
  | .classImbalanceHigh | .classLowSupport => [finding.classNumber]
  | .classSplitDrift => split
  | .duplicateWithinSplit | .duplicateAcrossSplits | .nearDuplicateWithinSplit
  | .nearDuplicateAcrossSplits => finding.metricTexts "members"
  | .leakageExactTrainVal | .leakageExactTrainTest | .leakageNearTrainVal
  | .leakageNearTrainTest =>
    (finding.metricTexts "train_images").map (identityIn .train) ++
      finding.split.toList.flatMap fun target =>
        (finding.metricTexts "eval_images").map (identityIn target)

/-- The fingerprint of a finding comes from its kind and its subject, in which no separator stands. -/
structure Marked (finding : Finding) : Prop where
  fingerprint : finding.fingerprint = DatasetAudit.fingerprint finding.id finding.subject
  plain : ∀ part ∈ finding.subject, Fingerprint.mark ∉ part.toList

/-- The bytes that a fingerprint is the digest of. -/
def bytes (finding : Finding) : List UInt8 :=
  Fingerprint.message finding.id finding.subject

/-- Two findings are not about the same. -/
def Differs (finding other : Finding) : Prop :=
  finding.id = other.id → finding.subject ≠ other.subject

variable {finding other : Finding}

theorem Differs.bytes_ne (h : finding.Differs other) (hMarked : finding.Marked)
    (hOther : other.Marked) : finding.bytes ≠ other.bytes := by
  intro hBytes
  obtain ⟨hId, hSubject⟩ := Fingerprint.message_injective hMarked.plain hOther.plain hBytes
  exact h hId hSubject

theorem metricTexts_ofNat {name : String} {n : Nat}
    (h : finding.metric? name = some (.ofNat n)) : finding.metricTexts name = [toString n] := by
  rw [metricTexts, h]
  rfl

theorem metricTexts_ofTexts {name : String} {texts : List String}
    (h : finding.metric? name = some (.ofTexts texts)) : finding.metricTexts name = texts := by
  rw [metricTexts, h]
  change (texts.map Json.string).filterMap Json.string? = texts
  rw [List.filterMap_map]
  exact List.filterMap_some

@[simp] theorem id_ofClass (finding : Finding) (row : AnnotationRow) :
    (finding.ofClass row).id = finding.id := by
  unfold ofClass
  split <;> rfl

@[simp] theorem fingerprint_ofClass (finding : Finding) (row : AnnotationRow) :
    (finding.ofClass row).fingerprint = finding.fingerprint := by
  unfold ofClass
  split <;> rfl

/-- The class of a row is only part of what an unknown class is about. -/
theorem subject_ofClass (row : AnnotationRow) (h : finding.id ≠ .integrityInvalidClassId) :
    (finding.ofClass row).subject = finding.subject := by
  unfold ofClass
  split
  · obtain ⟨id⟩ := finding
    cases id <;> first | rfl | exact absurd rfl h
  · rfl

end Finding

end DatasetAudit
