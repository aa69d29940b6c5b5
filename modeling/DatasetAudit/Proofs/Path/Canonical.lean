import DatasetAudit.Proofs.Scan.Layout

/-! The normal form of a path is canonical. It keeps no detour that can be told from the text alone,
two paths share it exactly if the same components are left of them on a stack, and it may take the
place of its path before another is joined. The directories of a dataset are normal forms, and so
they have no detours if the description lies in an absolute place. -/

namespace DatasetAudit

namespace Path

variable {path : Path}

/-- A path that leads down from the root, without detours. -/
structure IsDirect (path : Path) : Prop where
  absolute : path.absolute = true
  current : .current ∉ path.parts
  up : .up ∉ path.parts

theorem HasNames.isDirect {names : List String} (hAbsolute : path.absolute = true)
    (h : path.HasNames names) : path.IsDirect :=
  ⟨hAbsolute, by simp [h.parts], by simp [h.parts]⟩

/-- A path that names the directory itself at most on its own, that goes up in front at most, and
from the root never, and that is left as it is when it is brought to a normal form once more. -/
structure IsNormal (normal : Path) : Prop where
  current : .current ∈ normal.parts → normal = ⟨false, [.current]⟩
  up : ∃ ups rest, normal.parts = List.replicate ups .up ++ rest ∧ .up ∉ rest
  rooted : normal.absolute = true → .up ∉ normal.parts
  again : normal.normalize = normal

theorem isNormal_normalize (path : Path) : path.normalize.IsNormal := by
  obtain ⟨ups, names, hParts, hUps, -⟩ := path.exists_normalParts_eq
  rcases path.normalize_eq with hNormal | ⟨hNormal, -, -⟩
  · refine ⟨fun hCurrent => ?_, ⟨ups, names.map .name, ?_, by simp⟩, fun hAbsolute => ?_,
      path.normalize_normalize⟩
    · rw [hNormal] at hCurrent
      exact absurd hCurrent path.current_notMem_normalParts
    · rw [hNormal]
      exact hParts
    · rw [absolute_normalize] at hAbsolute
      rw [hNormal]
      simp [hParts, hUps hAbsolute]
  · refine ⟨fun _ => hNormal, ⟨0, [.current], ?_, by simp⟩, fun hAbsolute => ?_,
      path.normalize_normalize⟩
    · rw [hNormal]
      rfl
    · rw [hNormal] at hAbsolute
      cases hAbsolute

/-- Texts may be brought to the normal forms of their paths before they are put together. -/
theorem normalize_ofString_joinText_text (directory : String) {text : String}
    (h : (ofString text).absolute = false) :
    (ofString (joinText directory text)).normalize =
      (ofString (joinText (ofString directory).normalize.text
        (ofString text).normalize.text)).normalize := by
  have hDirectory := ofString_text_normalize (isPlain_ofString directory)
  have hText := ofString_text_normalize (isPlain_ofString text)
  have hRelative : (ofString (ofString text).normalize.text).absolute = false := by
    rw [hText, absolute_normalize, h]
  rw [normalize_ofString_joinText directory h, normalize_ofString_joinText _ hRelative, hDirectory,
    hText, normalize_join _ h]

end Path

namespace Layout

variable {dataYaml text : String} {requested : List Split} {layout : Layout}

theorem baseDir_absolute_of_ne_root (hAbsolute : (Path.ofString dataYaml).absolute = true)
    (hRoot : Path.ofString dataYaml ≠ Path.ofString "/") :
    (baseDir (Path.ofString dataYaml)).absolute = true := by
  have hParts : (Path.ofString dataYaml).parts ≠ [] := by
    intro hNil
    apply hRoot
    have hEmpty : Path.ofString dataYaml = ⟨true, []⟩ := by rw [← hAbsolute, ← hNil]
    exact hEmpty.trans (by decide)
  rw [baseDir, Path.parent?, if_neg (by simpa using hParts)]
  simp [hAbsolute]

/-- Whatever a description in an absolute place says, its directories lead down from the root. -/
theorem isDirect_of_parse (hBase : (baseDir (Path.ofString dataYaml)).absolute = true)
    (h : parse dataYaml text requested = .ok layout) :
    layout.root.IsDirect ∧ ∀ part ∈ layout.splits, part.imagesDir.IsDirect := by
  have hResolved := resolved_of_parse hBase h
  obtain ⟨names, hNames⟩ := hResolved.root
  refine ⟨hNames.isDirect hResolved.absolute, fun part hPart => ?_⟩
  obtain ⟨names, hImages⟩ := hResolved.images part hPart
  apply hImages.isDirect
  obtain ⟨members, -, hGives⟩ := exists_of_parse h
  obtain ⟨split, -, hSplit⟩ := (mem_filterMapM_iff hGives.splits).mp hPart
  obtain ⟨hint, rfl⟩ := exists_of_splitLayout hSplit
  exact (Path.absolute_normalize _).trans (Path.absolute_join hResolved.absolute)

end Layout

namespace Path

/-- The normal form is canonical, for paths and for the texts that name them, and a dataset whose
description lies in an absolute place has directories without detours. -/
theorem normalize_canonical :
    (∀ path : Path, path.normalize.IsNormal ∧ path.normalize.absolute = path.absolute) ∧
    (∀ base path : Path, path.absolute = false →
      (base.join path).normalize = (base.normalize.join path.normalize).normalize) ∧
    (∀ directory text : String, (ofString text).absolute = false →
      (ofString (joinText directory text)).normalize =
        (ofString (joinText (ofString directory).normalize.text
          (ofString text).normalize.text)).normalize) ∧
    (∀ path other : Path, path.normalize = other.normalize ↔ path.stacked = other.stacked) ∧
    ∀ (dataYaml text : String) (requested : List Split) (layout : Layout),
      (ofString dataYaml).absolute = true → ofString dataYaml ≠ ofString "/" →
      Layout.parse dataYaml text requested = .ok layout →
        layout.root.IsDirect ∧ ∀ part ∈ layout.splits, part.imagesDir.IsDirect :=
  ⟨fun path => ⟨path.isNormal_normalize, path.absolute_normalize⟩,
    fun base _ h => normalize_join base h,
    fun directory _ h => normalize_ofString_joinText_text directory h,
    fun _ _ => normalize_eq_normalize_iff_stacked,
    fun _ _ _ _ hAbsolute hRoot h =>
      Layout.isDirect_of_parse (Layout.baseDir_absolute_of_ne_root hAbsolute hRoot) h⟩

/-- A description that goes above the root and back down. -/
def detours : String :=
  "path: ../../../e/./f\ntrain: ../t/../images\nval: /../v/.\nnames: [a]\n"

theorem directories_of_detours : ∃ layout,
    Layout.parse "/d/../d/data.yaml" detours [] = .ok layout ∧
      layout.root = ofString "/e/f" ∧
      layout.splits.map SplitLayout.imagesDir = [ofString "/e/images", ofString "/v"] ∧
      layout.root.IsDirect ∧ ∀ part ∈ layout.splits, part.imagesDir.IsDirect := by
  obtain ⟨layout, hParse, hDirectories⟩ : ∃ layout,
      Layout.parse "/d/../d/data.yaml" detours [] = .ok layout ∧
        (layout.root, layout.splits.map SplitLayout.imagesDir) =
          (ofString "/e/f", [ofString "/e/images", ofString "/v"]) :=
    Except.exists_of_toOption_map (by decide +kernel)
  obtain ⟨hRoot, hImages⟩ := Prod.mk.inj hDirectories
  exact ⟨layout, hParse, hRoot, hImages,
    normalize_canonical.2.2.2.2 _ _ _ _ (by decide) (by decide) hParse⟩

end Path

end DatasetAudit
