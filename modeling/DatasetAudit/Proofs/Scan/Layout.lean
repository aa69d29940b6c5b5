import DatasetAudit.Audit
import DatasetAudit.Proofs.FileTree.Basic
import DatasetAudit.Proofs.Path.Normal

/-! The layout of a dataset that has been found. Its directories are named without detours, and no
split is given twice. -/

namespace DatasetAudit

namespace Layout

open DatasetAudit.Path (IsName HasNames IsPlain)

/-- Directories without detours, one pair for each split, and a root that is an absolute path. -/
structure Resolved (layout : Layout) : Prop where
  absolute : layout.root.absolute = true
  root : ∃ names, layout.root.HasNames names
  images : ∀ part ∈ layout.splits, ∃ names, part.imagesDir.HasNames names
  labels : ∀ part ∈ layout.splits, ∃ names, part.labelsDir.HasNames names
  distinct : (layout.splits.map SplitLayout.split).Nodup

/-- The directories of splits are such as texts name. -/
structure Plain (layout : Layout) : Prop where
  images : ∀ part ∈ layout.splits, part.imagesDir.IsPlain
  labels : ∀ part ∈ layout.splits, part.labelsDir.IsPlain

variable {tree : FileTree} {path dataYaml text : String} {requested : List Split}
  {layout : Layout} {base root imagesDir : Path} {names : List String} {split : Split}
  {members : List (Yaml.Value × Yaml.Value)} {part : SplitLayout}

theorem resolve_hasNames (hint : String) (hBase : base.absolute = true) (h : base.IsPlain) :
    (resolve base hint).absolute = true ∧ ∃ names, (resolve base hint).HasNames names :=
  Path.normalize_hasNames (Path.absolute_join hBase)
    (Path.isPlain_join h (Path.isPlain_ofString hint))

theorem labelsDirFor_hasNames (h : imagesDir.HasNames names) :
    ∃ names, (labelsDirFor imagesDir).HasNames names := by
  have hName : IsName "labels" := by decide
  rw [labelsDirFor]
  split
  · rename_i parent hParent
    exact ⟨_, (h.parent? hParent).push hName⟩
  · exact ⟨["labels"], rfl, List.forall_mem_singleton.mpr hName⟩

/-- The directories of a split are worked out from a hint and the root. -/
theorem exists_of_splitLayout (h : splitLayout members root split = .ok (some part)) :
    ∃ hint, part = ⟨split, resolve root hint, labelsDirFor (resolve root hint)⟩ := by
  unfold splitLayout at h
  split at h
  · cases h
  · cases h
  · exact ⟨_, (Option.some.inj (Except.ok.inj h)).symm⟩
  · cases h

theorem split_of_splitLayout (h : splitLayout members root split = .ok (some part)) :
    part.split = split := by
  obtain ⟨hint, rfl⟩ := exists_of_splitLayout h
  rfl

/-- A split has directories without detours if the root has. -/
theorem splitLayout_hasNames (hRoot : root.absolute = true) (hNames : root.HasNames names)
    (h : splitLayout members root split = .ok (some part)) :
    (∃ names, part.imagesDir.HasNames names) ∧ ∃ names, part.labelsDir.HasNames names := by
  obtain ⟨hint, rfl⟩ := exists_of_splitLayout h
  obtain ⟨-, names, hImages⟩ := resolve_hasNames hint hRoot hNames.isPlain
  exact ⟨⟨names, hImages⟩, labelsDirFor_hasNames hImages⟩

theorem wantedSplits_nodup (requested : List Split) : (wantedSplits requested).Nodup := by
  have hAll : Split.all.Nodup := by decide
  exact hAll.filter _

section Kept

variable {ε α β : Type} {f : α → Except ε (Option β)} {key : β → α} {items : List α}
  {results : List β}

theorem filterMapM_cons_eq_ok_iff {item : α} : (item :: items).filterMapM f = .ok results ↔
    ∃ found rest, f item = .ok found ∧ items.filterMapM f = .ok rest ∧
      results = found.toList ++ rest := by
  rw [List.filterMapM_cons]
  constructor
  · intro h
    obtain ⟨found, hFound, hRest⟩ := Except.exists_of_bind h
    cases found with
    | none => exact ⟨none, results, hFound, hRest, rfl⟩
    | some first =>
        obtain ⟨rest, hItems, hResults⟩ := Except.exists_of_bind hRest
        exact ⟨some first, rest, hFound, hItems, (Except.ok.inj hResults).symm⟩
  · rintro ⟨found, rest, hFound, hRest, rfl⟩
    rw [hFound]
    cases found with
    | none => exact hRest
    | some first =>
        change (items.filterMapM f).bind _ = _
        rw [hRest]
        rfl

/-- What is kept of a list comes from different items of it, in their order. -/
theorem map_key_sublist_of_filterMapM (hKey : ∀ a b, f a = .ok (some b) → key b = a)
    (h : items.filterMapM f = .ok results) : (results.map key).Sublist items := by
  induction items generalizing results with
  | nil =>
      cases h
      exact .slnil
  | cons item items ih =>
      obtain ⟨found, rest, hFound, hRest, rfl⟩ := filterMapM_cons_eq_ok_iff.mp h
      cases found with
      | none => exact (ih hRest).cons item
      | some first =>
          rw [Option.toList_some, List.singleton_append, List.map_cons, hKey item first hFound]
          exact (ih hRest).cons_cons item

theorem mem_filterMapM_iff (h : items.filterMapM f = .ok results) {b : β} :
    b ∈ results ↔ ∃ item ∈ items, f item = .ok (some b) := by
  induction items generalizing results with
  | nil =>
      cases h
      simp
  | cons item items ih =>
      obtain ⟨found, rest, hFound, hRest, rfl⟩ := filterMapM_cons_eq_ok_iff.mp h
      rw [List.mem_append, ih hRest, List.exists_mem_cons_iff, hFound]
      cases found <;> simp [eq_comm]

/-- Every item of a list is read, whether it is kept or not. -/
theorem exists_of_filterMapM (h : items.filterMapM f = .ok results) {item : α} (hMem : item ∈ items) :
    ∃ found, f item = .ok found := by
  induction items generalizing results with
  | nil => cases hMem
  | cons first items ih =>
      obtain ⟨found, rest, hFound, hRest, -⟩ := filterMapM_cons_eq_ok_iff.mp h
      rcases List.mem_cons.mp hMem with rfl | hMem
      · exact ⟨found, hFound⟩
      · exact ih hRest hMem

/-- Of some of the items that is kept which is kept of all and comes from them. -/
theorem filterMapM_filter (p : α → Bool) (hKey : ∀ a b, f a = .ok (some b) → key b = a)
    (h : items.filterMapM f = .ok results) :
    (items.filter p).filterMapM f = .ok (results.filter fun b => p (key b)) := by
  induction items generalizing results with
  | nil =>
      cases h
      rfl
  | cons item items ih =>
      obtain ⟨found, rest, hFound, hRest, rfl⟩ := filterMapM_cons_eq_ok_iff.mp h
      have hKept : found.toList.filter (fun b => p (key b)) = if p item then found.toList else [] := by
        cases found with
        | none => simp
        | some first => simp [List.filter_cons, hKey item first hFound]
      rw [List.filter_append, hKept]
      cases hItem : p item with
      | true =>
          rw [List.filter_cons_of_pos hItem, if_pos rfl]
          exact filterMapM_cons_eq_ok_iff.mpr ⟨found, _, hFound, ih hRest, rfl⟩
      | false =>
          rw [List.filter_cons_of_neg (by simp [hItem])]
          simpa using ih hRest

end Kept

theorem baseDir_isPlain (dataYaml : String) : (baseDir (Path.ofString dataYaml)).IsPlain := by
  rw [baseDir]
  split
  · rename_i parent hParent
    split
    · rw [Path.parent?] at hParent
      split at hParent
      · cases hParent
      · obtain rfl := Option.some.inj hParent
        intro name hName
        exact Path.isPlain_ofString dataYaml name ((List.dropLast_sublist _).subset hName)
    · intro name hName
      simp at hName
  · intro name hName
    simp at hName

/-- What a description gives when some splits are asked for. Only the splits depend on that. -/
structure Gives (dataYaml : String) (members : List (Yaml.Value × Yaml.Value))
    (requested : List Split) (layout : Layout) : Prop where
  root : layout.root = (baseDir (Path.ofString dataYaml)).normalize ∨
    ∃ hint, layout.root = resolve (baseDir (Path.ofString dataYaml)) hint
  splits : (wantedSplits requested).filterMapM (splitLayout members layout.root) = .ok layout.splits
  nonempty : layout.splits ≠ []
  others : ∀ others splits,
    (wantedSplits others).filterMapM (splitLayout members layout.root) = .ok splits →
      ofValue dataYaml others (.mapping members) =
        if splits.isEmpty then .error .noSplits else .ok { layout with splits }

theorem gives_of_root (hRoot : root = (baseDir (Path.ofString dataYaml)).normalize ∨
      ∃ hint, root = resolve (baseDir (Path.ofString dataYaml)) hint)
    (hValue : ∀ others, ofValue dataYaml others (.mapping members) = (do
      let classNames ← readNames (Yaml.Value.lookup? "names" members)
      let splits ← (wantedSplits others).filterMapM (splitLayout members root)
      if splits.isEmpty then .error LayoutFault.noSplits
      else .ok (Layout.mk dataYaml root classNames splits)))
    (h : ofValue dataYaml requested (.mapping members) = .ok layout) :
    Gives dataYaml members requested layout := by
  rw [hValue] at h
  obtain ⟨classNames, hNames, h⟩ := Except.exists_of_bind h
  obtain ⟨splits, hSplits, h⟩ := Except.exists_of_bind h
  split at h
  · cases h
  · rename_i hNonempty
    obtain rfl := Except.ok.inj h
    refine ⟨hRoot, hSplits, by simpa using hNonempty, fun others splits hSplits => ?_⟩
    rw [hValue, hNames]
    change ((wantedSplits others).filterMapM (splitLayout members root)).bind _ = _
    rw [hSplits]
    rfl

theorem exists_of_parse (h : parse dataYaml text requested = .ok layout) : ∃ members,
    Yaml.Value.ofText? text = some (.mapping members) ∧
      Gives dataYaml members requested layout := by
  unfold parse at h
  split at h
  · cases h
  · rename_i value hText
    cases value with
    | mapping members =>
        refine ⟨members, hText, ?_⟩
        cases hPath : Yaml.Value.lookup? "path" members with
        | none =>
            exact gives_of_root (.inl rfl) (fun others => by simp only [ofValue, hPath]; rfl) h
        | some hint =>
            cases hint with
            | string hint =>
                exact gives_of_root (.inr ⟨hint, rfl⟩)
                  (fun others => by simp only [ofValue, hPath]; rfl) h
            | _ =>
                simp only [ofValue, hPath] at h
                cases h
    | _ => cases h

/-- No split is given twice. -/
theorem splits_nodup_of_parse (h : parse dataYaml text requested = .ok layout) :
    (layout.splits.map SplitLayout.split).Nodup := by
  obtain ⟨members, -, hGives⟩ := exists_of_parse h
  exact (wantedSplits_nodup requested).sublist
    (map_key_sublist_of_filterMapM (fun _ _ => split_of_splitLayout) hGives.splits)

theorem labelsDirFor_isPlain (h : imagesDir.IsPlain) : (labelsDirFor imagesDir).IsPlain := by
  have hName : IsName "labels" := by decide
  rw [labelsDirFor, Path.parent?]
  intro name hMem
  split at hMem
  · rename_i parent hParent
    split at hParent
    · cases hParent
    · obtain rfl := Option.some.inj hParent
      rcases List.mem_append.mp hMem with hAbove | hLast
      · exact h name ((List.dropLast_sublist _).subset hAbove)
      · rwa [PathPart.name.inj (List.mem_singleton.mp hLast)]
  · rwa [PathPart.name.inj (List.mem_singleton.mp hMem)]

theorem plain_of_parse (h : parse dataYaml text requested = .ok layout) : layout.Plain := by
  have hBase := baseDir_isPlain dataYaml
  have hResolve {base : Path} (hint : String) (hBase : base.IsPlain) : (resolve base hint).IsPlain :=
    Path.isPlain_normalize (Path.isPlain_join hBase (Path.isPlain_ofString hint))
  obtain ⟨members, -, hGives⟩ := exists_of_parse h
  have hRoot : layout.root.IsPlain := by
    rcases hGives.root with hRoot | ⟨hint, hRoot⟩
    · exact hRoot ▸ Path.isPlain_normalize hBase
    · exact hRoot ▸ hResolve hint hBase
  have hHint : ∀ part ∈ layout.splits, ∃ split hint,
      part = ⟨split, resolve layout.root hint, labelsDirFor (resolve layout.root hint)⟩ := by
    intro part hPart
    obtain ⟨split, -, hSplit⟩ := (mem_filterMapM_iff hGives.splits).mp hPart
    exact ⟨split, exists_of_splitLayout hSplit⟩
  constructor
  · intro part hPart
    obtain ⟨_, hint, rfl⟩ := hHint part hPart
    exact hResolve hint hRoot
  · intro part hPart
    obtain ⟨_, hint, rfl⟩ := hHint part hPart
    exact labelsDirFor_isPlain (hResolve hint hRoot)

/-- A description in an absolute place gives a layout without detours. -/
theorem resolved_of_parse (hAbsolute : (baseDir (Path.ofString dataYaml)).absolute = true)
    (h : parse dataYaml text requested = .ok layout) : layout.Resolved := by
  have hBase := baseDir_isPlain dataYaml
  obtain ⟨members, -, hGives⟩ := exists_of_parse h
  obtain ⟨hRoot, names, hNames⟩ : layout.root.absolute = true ∧
      ∃ names, layout.root.HasNames names := by
    rcases hGives.root with hRoot | ⟨hint, hRoot⟩
    · exact hRoot ▸ Path.normalize_hasNames hAbsolute hBase
    · exact hRoot ▸ resolve_hasNames hint hAbsolute hBase
  have hDirectories : ∀ part ∈ layout.splits, (∃ names, part.imagesDir.HasNames names) ∧
      ∃ names, part.labelsDir.HasNames names := by
    intro part hPart
    obtain ⟨split, -, hSplit⟩ := (mem_filterMapM_iff hGives.splits).mp hPart
    exact splitLayout_hasNames hRoot hNames hSplit
  exact ⟨hRoot, ⟨names, hNames⟩, fun part hPart => (hDirectories part hPart).1,
    fun part hPart => (hDirectories part hPart).2, splits_nodup_of_parse h⟩

/-- The directory of a file that has an absolute path has an absolute path too. -/
theorem baseDir_absolute (hHead : dataYaml.toList.head? = some '/')
    (hText : tree.readText dataYaml = .ok text) :
    (baseDir (Path.ofString dataYaml)).absolute = true := by
  obtain ⟨bytes, hRead, -⟩ := Except.exists_of_bind hText
  obtain ⟨place, mtimeNs, hFind, -⟩ := FileTree.read_eq_ok_iff.mp hRead
  obtain ⟨hLocate, hNode⟩ := FileTree.find_eq_ok_iff.mp hFind
  obtain ⟨-, -, hFollow, -⟩ := FileTree.locate_eq_ok hLocate
  have hAbsolute : (Path.ofString dataYaml).absolute = true := by
    rw [Path.absolute_ofString, hHead, beq_self_eq_true]
  have hParts : (Path.ofString dataYaml).parts ≠ [] := by
    intro hNil
    rw [hNil, FileTree.start, if_pos hAbsolute] at hFollow
    exact FileTree.ne_nil_of_file hNode (Except.ok.inj hFollow).symm
  rw [baseDir, Path.parent?, if_neg (by simpa using hParts)]
  simp [hAbsolute]

theorem exists_of_load (h : load tree path requested = .ok layout) : ∃ dataYaml text,
    tree.canonical path = .ok dataYaml ∧ tree.readText dataYaml = .ok text ∧
      parse dataYaml text requested = .ok layout := by
  unfold load at h
  simp only at h
  split at h
  · cases h
  · rename_i dataYaml hCanonical
    split at h
    · cases h
    · rename_i text hText
      exact ⟨dataYaml, text, hCanonical, hText, Except.mapError_eq_ok_iff.mp h⟩

/-- A description that has been found in a tree lies in an absolute place. -/
theorem resolved_of_load (h : load tree path requested = .ok layout) : layout.Resolved := by
  obtain ⟨dataYaml, text, hCanonical, hText, hParse⟩ := exists_of_load h
  have hHead : dataYaml.toList.head? = some '/' := by
    cases hFind : tree.find path with
    | error _ =>
        rw [FileTree.canonical, hFind] at hCanonical
        cases hCanonical
    | ok found =>
        rw [FileTree.canonical, hFind] at hCanonical
        obtain rfl := Except.ok.inj hCanonical
        simp
  exact resolved_of_parse (baseDir_absolute hHead hText) hParse

/-- A description that gives no layout is no good, or it cannot be read. -/
theorem usage_of_load {error : AuditError} (h : load tree path requested = .error error) :
    ∃ fault, error = .usage fault := by
  unfold load at h
  split at h
  · exact ⟨_, (Except.error.inj h).symm⟩
  · split at h
    · exact ⟨_, (Except.error.inj h).symm⟩
    · obtain ⟨fault, _, rfl⟩ := Except.mapError_eq_error_iff.mp h
      exact ⟨_, rfl⟩

end Layout

end DatasetAudit
