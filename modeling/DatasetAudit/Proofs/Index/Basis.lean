import DatasetAudit.Index.Build
import DatasetAudit.Proofs.Text.Basic

/-! The text of the settings. The root may hold any characters, line breaks included; what follows
it is a fixed number of lines, so the text determines the root and every line behind it. -/

namespace DatasetAudit

namespace CacheBasis

/-- The settings behind the root, a line each. -/
def lines (basis : CacheBasis) : List String :=
  ["version=" ++ basis.toolVersion,
   "checks=" ++ ",".intercalate basis.enabledChecks,
   "phash=" ++ toString basis.perceptualHashing,
   "hamming=" ++ toString basis.phashHammingThreshold.toNat,
   "max_images=" ++ toString basis.maxImages]

theorem text_toList (basis : CacheBasis) :
    basis.text.toList = ("root=" ++ basis.datasetRoot).toList ++
      Text.behind '\n' (basis.lines.map String.toList) := by
  have hText : basis.text = "root=" ++ basis.datasetRoot ++ "\nversion=" ++ basis.toolVersion ++
      "\nchecks=" ++ ",".intercalate basis.enabledChecks ++ "\n" ++
      ("phash=" ++ toString basis.perceptualHashing ++ "\nhamming=" ++
        toString basis.phashHammingThreshold.toNat ++ "\n") ++
      ("max_images=" ++ toString basis.maxImages) := rfl
  simp [hText, lines, Text.behind]

/-- The names in the settings hold no line break. -/
structure Plain (basis : CacheBasis) : Prop where
  version : '\n' ∉ basis.toolVersion.toList
  checks : ∀ name ∈ basis.enabledChecks, '\n' ∉ name.toList

theorem Plain.lines {basis : CacheBasis} (h : basis.Plain) :
    ∀ line ∈ basis.lines.map String.toList, '\n' ∉ line := by
  have hChecks : '\n' ∉ [','].intercalate (basis.enabledChecks.map String.toList) := by
    apply Text.notMem_intercalate (by decide)
    intro part hPart
    obtain ⟨name, hName, rfl⟩ := List.mem_map.mp hPart
    exact h.checks name hName
  have hNumber := Text.notMem_toDigits (c := '\n') rfl
  have hHashing : '\n' ∉ (toString basis.perceptualHashing).toList := by
    cases basis.perceptualHashing <;> decide
  intro line hLine
  simp only [CacheBasis.lines, List.map_cons, List.map_nil, List.mem_cons, List.not_mem_nil,
    or_false, String.toList_append] at hLine
  rcases hLine with rfl | rfl | rfl | rfl | rfl
  · simp [h.version]
  · simp [hChecks]
  · simp [hHashing]
  · simp [hNumber]
  · simp [hNumber]

theorem lines_injective {basis other : CacheBasis} (hBasis : basis.Plain) (hOther : other.Plain)
    (hText : basis.text = other.text) :
    basis.datasetRoot = other.datasetRoot ∧ basis.lines = other.lines := by
  have hLists := congrArg String.toList hText
  rw [text_toList, text_toList] at hLists
  have hLength : (basis.lines.map String.toList).length =
      (other.lines.map String.toList).length := by
    simp [lines]
  obtain ⟨hRoot, hLines⟩ :=
    Text.append_behind_injective hBasis.lines hOther.lines hLength hLists
  refine ⟨?_, ?_⟩
  · simpa [← String.toList_inj] using hRoot
  · exact (List.map_inj_right fun _ _ hEq => String.toList_inj.mp hEq).mp hLines

/-- The text of the settings tells whether perceptual hashes are worked out. -/
theorem perceptualHashing_eq {basis other : CacheBasis} (hLines : basis.lines = other.lines) :
    basis.perceptualHashing = other.perceptualHashing := by
  have hText : "phash=" ++ toString basis.perceptualHashing =
      "phash=" ++ toString other.perceptualHashing := by
    simp only [lines, List.cons.injEq] at hLines
    exact hLines.2.2.1
  revert hText
  cases basis.perceptualHashing <;> cases other.perceptualHashing <;> decide

end CacheBasis

theorem Index.basisOf_plain (source : Source) (config : Config) (options : IndexOptions)
    (decoder : Decoder) : (basisOf source config options decoder).Plain where
  version := by
    change '\n' ∉ DatasetAudit.toolVersion.toList
    decide
  checks := by
    intro name hName
    obtain ⟨kind, _, rfl⟩ := List.mem_map.mp hName
    cases kind <;> decide

end DatasetAudit
