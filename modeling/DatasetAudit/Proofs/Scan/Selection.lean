import DatasetAudit.Proofs.Scan.Layout
import DatasetAudit.Proofs.Scan.Named

/-! Asking for some of the splits. A description is read and its splits are walked one by one, so the
layout and the dataset that are found hold what was asked for of what is found without asking. -/

namespace DatasetAudit

namespace Layout

open Yaml (Value)

variable {tree : FileTree} {path dataYaml : String} {requested : List Split} {layout : Layout}
  {root : Path} {members : List (Value × Value)} {split : Split}

/-- Some of the splits of a layout. -/
def select (layout : Layout) (requested : List Split) : Layout :=
  { layout with splits := layout.splits.filter fun part => part.split ∈ requested }

/-- A description, found in a tree, has these members. -/
def Describes (tree : FileTree) (path dataYaml : String) (members : List (Value × Value)) : Prop :=
  tree.canonical path = .ok dataYaml ∧ ∃ text, tree.readText dataYaml = .ok text ∧
    Value.ofText? text = some (.mapping members)

/-- The description of a dataset has something, other than null, for a split. -/
def Declares (tree : FileTree) (path : String) (split : Split) : Prop :=
  ∃ dataYaml members value, Describes tree path dataYaml members ∧
    Value.lookup? split.name members = some value ∧ value ≠ .null

theorem Describes.eq {dataYaml' : String} {members' : List (Value × Value)}
    (h : Describes tree path dataYaml members) (h' : Describes tree path dataYaml' members') :
    dataYaml' = dataYaml ∧ members' = members := by
  obtain ⟨hPath, text, hText, hValue⟩ := h
  obtain ⟨hPath', text', hText', hValue'⟩ := h'
  obtain rfl := Except.ok.inj (hPath.symm.trans hPath')
  obtain rfl := Except.ok.inj (hText.symm.trans hText')
  exact ⟨rfl, Value.mapping.inj (Option.some.inj (hValue'.symm.trans hValue))⟩

theorem exists_describes_of_load (h : load tree path requested = .ok layout) : ∃ dataYaml members,
    Describes tree path dataYaml members ∧ Gives dataYaml members requested layout := by
  obtain ⟨dataYaml, text, hCanonical, hText, hParse⟩ := exists_of_load h
  obtain ⟨members, hMembers, hGives⟩ := exists_of_parse hParse
  exact ⟨dataYaml, members, ⟨hCanonical, text, hText, hMembers⟩, hGives⟩

theorem load_of_describes (h : Describes tree path dataYaml members) (requested : List Split) :
    load tree path requested =
      (ofValue dataYaml requested (.mapping members)).mapError fun fault => .usage (.layout fault) := by
  obtain ⟨hCanonical, text, hText, hValue⟩ := h
  simp only [load, hCanonical, hText, parse, hValue]

/-- A split that is read without a fault has directories if there is something for it. -/
theorem isSome_iff_of_splitLayout {found : Option SplitLayout}
    (h : splitLayout members root split = .ok found) :
    found.isSome ↔ ∃ value, Value.lookup? split.name members = some value ∧ value ≠ .null := by
  unfold splitLayout at h
  split at h
  · rename_i hNone
    obtain rfl := Except.ok.inj h
    simp [hNone]
  · rename_i hNull
    obtain rfl := Except.ok.inj h
    simp [hNull]
  · rename_i dir hDir
    obtain rfl := Except.ok.inj h
    exact iff_of_true rfl ⟨_, hDir, nofun⟩
  · cases h

theorem mem_wantedSplits_iff : split ∈ wantedSplits requested ↔
    requested = [] ∨ split ∈ requested := by
  have hAll : split ∈ Split.all := by cases split <;> decide
  simp [wantedSplits, hAll]

/-- The splits of a layout are those that are wanted and declared. -/
theorem exists_part_iff (h : load tree path requested = .ok layout) :
    (∃ part ∈ layout.splits, part.split = split) ↔
      split ∈ wantedSplits requested ∧ Declares tree path split := by
  obtain ⟨dataYaml, members, hDescribes, hGives⟩ := exists_describes_of_load h
  constructor
  · rintro ⟨part, hPart, rfl⟩
    obtain ⟨split, hWanted, hFound⟩ := (mem_filterMapM_iff hGives.splits).mp hPart
    obtain rfl := split_of_splitLayout hFound
    obtain ⟨value, hValue⟩ := (isSome_iff_of_splitLayout hFound).mp rfl
    exact ⟨hWanted, dataYaml, members, value, hDescribes, hValue⟩
  · rintro ⟨hWanted, dataYaml', members', value, hDescribes', hValue⟩
    obtain ⟨rfl, rfl⟩ := hDescribes.eq hDescribes'
    obtain ⟨found, hFound⟩ := exists_of_filterMapM hGives.splits hWanted
    obtain ⟨part, rfl⟩ :=
      Option.isSome_iff_exists.mp ((isSome_iff_of_splitLayout hFound).mpr ⟨value, hValue⟩)
    exact ⟨part, (mem_filterMapM_iff hGives.splits).mpr ⟨split, hWanted, hFound⟩,
      split_of_splitLayout hFound⟩

/-- Asking for splits selects them from the layout with all of them, and there has to be one. -/
theorem load_requested (hRequested : requested ≠ []) (h : load tree path [] = .ok layout) :
    load tree path requested =
      if (layout.select requested).splits.isEmpty then .error (.usage (.layout .noSplits))
      else .ok (layout.select requested) := by
  obtain ⟨dataYaml, members, hDescribes, hGives⟩ := exists_describes_of_load h
  have hAsked : requested.isEmpty = false := List.isEmpty_eq_false_iff.mpr hRequested
  have hWanted : wantedSplits requested = (wantedSplits []).filter (· ∈ requested) := by
    simp [wantedSplits, hAsked]
  have hSplits : (wantedSplits requested).filterMapM (splitLayout members layout.root) =
      .ok (layout.select requested).splits := by
    rw [hWanted]
    exact filterMapM_filter _ (fun _ _ => split_of_splitLayout) hGives.splits
  rw [load_of_describes hDescribes, hGives.others requested _ hSplits]
  split <;> rfl

theorem load_of_declared (hDeclared : ∃ split ∈ requested, Declares tree path split)
    (h : load tree path [] = .ok layout) : load tree path requested = .ok (layout.select requested) := by
  obtain ⟨split, hMem, hSplit⟩ := hDeclared
  have hWanted : split ∈ wantedSplits [] := mem_wantedSplits_iff.mpr (.inl rfl)
  obtain ⟨part, hPart, rfl⟩ := (exists_part_iff h).mpr ⟨hWanted, hSplit⟩
  have hKept : part ∈ (layout.select requested).splits :=
    List.mem_filter.mpr ⟨hPart, decide_eq_true hMem⟩
  rw [load_requested (List.ne_nil_of_mem hMem) h, if_neg]
  exact fun hNone => List.ne_nil_of_mem hKept (List.isEmpty_iff.mp hNone)

/-- Where none of the splits that are asked for is declared, there is no layout. -/
theorem exists_usage_of_not_declared (hRequested : requested ≠ [])
    (hDeclared : ∀ split ∈ requested, ¬ Declares tree path split) :
    ∃ fault, load tree path requested = .error (.usage fault) := by
  cases hLoad : load tree path requested with
  | error _ =>
      obtain ⟨fault, rfl⟩ := usage_of_load hLoad
      exact ⟨fault, rfl⟩
  | ok layout =>
      obtain ⟨_, _, -, hGives⟩ := exists_describes_of_load hLoad
      obtain ⟨part, hPart⟩ := List.exists_mem_of_ne_nil _ hGives.nonempty
      obtain ⟨hWanted, hSplit⟩ := (exists_part_iff hLoad).mp ⟨part, hPart, rfl⟩
      exact absurd hSplit (hDeclared _ ((mem_wantedSplits_iff.mp hWanted).resolve_left hRequested))

/-- The rest of the description being right, that is the only thing wrong. -/
theorem load_of_not_declared (hRequested : requested ≠ [])
    (hDeclared : ∀ split ∈ requested, ¬ Declares tree path split)
    (h : load tree path [] = .ok layout) :
    load tree path requested = .error (.usage (.layout .noSplits)) := by
  rw [load_requested hRequested h, if_pos]
  rw [List.isEmpty_iff, select, List.filter_eq_nil_iff]
  intro part hPart hMem
  exact hDeclared part.split (of_decide_eq_true hMem) ((exists_part_iff h).mp ⟨part, hPart, rfl⟩).2

end Layout

namespace Source

variable {source : Source} {requested : List Split}

/-- Some of the splits of a dataset. -/
def select (source : Source) (requested : List Split) : Source :=
  { source with splits := source.splits.filter fun found => found.split ∈ requested }

/-- The records of some splits are those that are listed under them. -/
theorem records_select
    (h : ∀ found ∈ source.splits, ∀ record ∈ found.records, record.split = found.split) :
    (source.select requested).records =
      source.records.filter fun record => record.split ∈ requested := by
  refine (filter_flatMap_eq fun found hFound record hRecord => ?_).symm
  rw [h found hFound record hRecord]

end Source

namespace Scan

variable {tree : FileTree} {layout : Layout} {source : Source} {requested : List Split}

/-- The records of a split are listed under it. -/
theorem listed_of_scan (h : scan tree layout = .ok source) :
    ∀ found ∈ source.splits, ∀ record ∈ found.records, record.split = found.split := by
  intro found hFound record hRecord
  obtain ⟨-, hSplits, -⟩ := scan_eq_ok_iff.mp h
  obtain ⟨part, -, hPart⟩ := exists_of_mem_mapM hSplits hFound
  obtain ⟨images, files, -, hSplit, hRecords, -⟩ := exists_of_split hPart
  rw [hRecords] at hRecord
  obtain ⟨image, -, rfl⟩ := List.mem_map.mp hRecord
  exact hSplit.symm

/-- A dataset may be selected from before or after it is scanned. -/
theorem scan_select (h : scan tree layout = .ok source) (requested : List Split) :
    scan tree (layout.select requested) = .ok (source.select requested) := by
  obtain ⟨hOpen, hSplits, hSource⟩ := scan_eq_ok_iff.mp h
  refine scan_eq_ok_iff.mpr ⟨hOpen, mapM_eq_ok_iff.mpr ?_, ?_⟩
  · apply List.rel_filter _ (mapM_eq_ok_iff.mp hSplits)
    intro part found hFound
    obtain ⟨_, _, -, hSplit, -⟩ := exists_of_split hFound
    simp only [hSplit]
  · rw [hSource]
    rfl

end Scan

end DatasetAudit
