import DatasetAudit.Proofs.Artifact.Index
import DatasetAudit.Proofs.Artifact.Summary

/-! Reading undoes writing: the documents of findings, summaries and indexes are read as the values
that they were written from. -/

namespace DatasetAudit

open Json

/-- A document is read by the reader that restores its value. -/
theorem Json.Restores.parse?_bind {α : Type} {read : Json → Option α} {value : Json} {a : α}
    (h : Restores read value a) : (parse? value.document).bind read = some a := by
  rw [parse?_document h.readable, Option.bind_some, h.read_eq]

namespace Artifact

/-- Every file of a run is read as what it was written from, whatever its texts are and whichever of
its optional fields have values. -/
theorem document_reads_back :
    (∀ flags : Flags, flags.Writable → Flags.parse? flags.toJson.document = some flags) ∧
      (∀ summary : Summary, summary.Writable →
        Summary.parse? summary.toJson.document = some summary) ∧
      ∀ index : Index, index.Writable → Index.parse? index.toJson.document = some index :=
  ⟨fun _ h => (Flags.restores h).parse?_bind, fun _ h => (Summary.restores h).parse?_bind,
    fun _ h => (Index.restores h).parse?_bind⟩

/-- Findings with quotes, backslashes, line feeds and control characters in their texts, numbers at
the ends of their ranges, and every optional field with and without a value. -/
def awkwardFlags : Flags where
  schemaVersion := "1.0.0"
  findings :=
    [{ id := .integrityMalformedRow
       severity := .high
       message := "row \"0 1\\2\"\n\x01 é 😀"
       fingerprint := ""
       split := some .val
       image := some "a\nb.png"
       label := some "C:\\labels\\\"x\".txt"
       classId := some Int64.minValue
       metrics := some (.object
         [("areas", .array [.float 0.1, .float (.ofBits 1), .float (-0.0)]),
           ("least", .integer (-9223372036854775808)), ("most", .integer 18446744073709551615),
           ("none", .null), ("text", .string "\t\"")])
       suggestedAction := some "" },
     { id := .leakageNearTrainTest
       severity := .low
       message := ""
       fingerprint := "f" }]

/-- A summary with the greatest count, and with some splits and checks left out. -/
def awkwardSummary : Summary where
  schemaVersion := "1.0.0"
  run :=
    { runId := "run\r\n"
      toolVersion := "0.1.0"
      startedAt := ""
      finishedAt := ""
      durationSec := 0.30000000000000004
      config := ⟨.medium, ["integrity"]⟩ }
  dataset :=
    { root := "/data\x7f"
      dataYaml := none
      splits := fun split => if split = .test then none else some ⟨3, 2, 1⟩
      classes := ⟨1, ["a\"b"]⟩ }
  checks := fun kind =>
    if kind = .leakage then some ⟨.skipped, { low := 18446744073709551615 }, some "why"⟩ else none
  totals := ⟨0, {}, .critical, true, []⟩

/-- An index with an image of each label state, and coordinates that are long to write. -/
def awkwardIndex : Index where
  schemaVersion := "1.0.0"
  toolVersion := "0.1.0"
  datasetRoot := ""
  dataYaml := some "data.yaml"
  classNames := ["\\", ""]
  splits := [⟨.train, "images", "labels", 18446744073709551615, ["x\n.txt"]⟩]
  perceptualHashing := true
  cacheBasis := ⟨"", "0.1.0", [], true, 4294967295, 0⟩
  cacheKey := "k"
  entries :=
    [{ split := .train
       image := "a.png"
       label := some "a.txt"
       sizeBytes := 18446744073709551615
       mtimeNs := -1
       contentHash := some "00"
       perceptualHash := some 9223372036854775808
       width := some 1
       height := some 4294967295
       labels := .parsed
         [{ line := 1, classId := 9223372036854775807, box := ⟨0.1, 1e-7, 1e16, 123456789.125⟩
            polygon := none },
           { line := 2, classId := 0, box := ⟨0.5, 0.5, 0.25, 0.0⟩
             polygon := some [.ofBits 0x7FEFFFFFFFFFFFFF, .ofBits 0x8010000000000000, 1.5] }]
         [⟨3, "0 a \"", "bad\tnumber"⟩] },
     { split := .val, image := "b.png", sizeBytes := 0, mtimeNs := 0, labels := .missing
       imageError := some "truncated" },
     { split := .val, image := "c.png", sizeBytes := 0, mtimeNs := 0
       labels := .unreadable "no\nutf-8" }]

theorem awkwardFlags_writable : awkwardFlags.Writable := by
  simp only [Flags.Writable, awkwardFlags, List.forall_mem_cons, Option.mem_def, Option.some.injEq,
    forall_eq', reduceCtorEq, false_imp_iff, implies_true, true_and]
  refine ⟨⟨_, rfl, ?_, ?_⟩, List.forall_mem_nil _⟩
  · simp only [Ascending]
    decide
  · simp only [List.forall_mem_cons]
    refine ⟨.inr ⟨_, rfl, ?_⟩, .inl ?_, .inl ?_, .inl trivial, .inl trivial, nofun⟩
    · simp only [List.forall_mem_cons]
      exact ⟨rfl, rfl, rfl, nofun⟩
    · exact readable_integer (by decide) (by decide)
    · exact readable_integer (by decide) (by decide)

theorem awkwardSummary_writable : awkwardSummary.Writable where
  duration := rfl
  dataset := by
    refine ⟨fun split counts hCounts => ?_, by decide⟩
    cases split <;> cases hCounts <;> exact ⟨by decide, by decide, by decide⟩
  checks kind check hCheck := by
    cases kind <;> cases hCheck
    intro severity
    cases severity <;> decide
  totals := ⟨by decide, fun severity => by cases severity <;> decide⟩

theorem awkwardIndex_writable : awkwardIndex.Writable where
  entries := by
    simp only [awkwardIndex, List.forall_mem_cons, LabelState.IsFinite, LabelState.rows]
    refine ⟨⟨⟨rfl, rfl, rfl, rfl, nofun⟩, ⟨rfl, rfl, rfl, rfl, ?_⟩, nofun⟩, nofun, nofun, nofun⟩
    rintro _ ⟨⟩
    simp only [List.forall_mem_cons]
    exact ⟨rfl, rfl, rfl, nofun⟩
  splits := by
    simp only [awkwardIndex, List.forall_mem_cons]
    exact ⟨by decide, nofun⟩
  basis := by decide

theorem awkward_reads_back :
    (awkwardFlags.Writable ∧
        Flags.parse? awkwardFlags.toJson.document = some awkwardFlags) ∧
      (awkwardSummary.Writable ∧
        Summary.parse? awkwardSummary.toJson.document = some awkwardSummary) ∧
      awkwardIndex.Writable ∧ Index.parse? awkwardIndex.toJson.document = some awkwardIndex := by
  obtain ⟨hFlags, hSummary, hIndex⟩ := document_reads_back
  exact ⟨⟨awkwardFlags_writable, hFlags _ awkwardFlags_writable⟩,
    ⟨awkwardSummary_writable, hSummary _ awkwardSummary_writable⟩,
    awkwardIndex_writable, hIndex _ awkwardIndex_writable⟩

end Artifact

end DatasetAudit
