import DatasetAudit.Proofs.Check.Distinct
import DatasetAudit.Proofs.Diff.Partition
import DatasetAudit.Proofs.Index.Reload
import DatasetAudit.Proofs.Scan.Named

/-! No two findings of a run are taken for one. They hand different bytes to the digest, so that, as
long as the digest does not collide on these, a comparison with an empty run introduces all of them. -/

namespace DatasetAudit

namespace Finding

variable {findings : List Finding}

/-- The digest tells the bytes of some findings apart. -/
def CollisionFree (findings : List Finding) : Prop :=
  ∀ a ∈ findings, ∀ b ∈ findings,
    Fingerprint.digestText a.bytes = Fingerprint.digestText b.bytes → a.bytes = b.bytes

instance (findings : List Finding) : Decidable (CollisionFree findings) :=
  inferInstanceAs (Decidable (∀ a ∈ findings, ∀ b ∈ findings,
    Fingerprint.digestText a.bytes = Fingerprint.digestText b.bytes → a.bytes = b.bytes))

namespace ToldApart

theorem fingerprint_eq (h : ToldApart findings) {a : Finding} (ha : a ∈ findings) :
    a.fingerprint = Fingerprint.digestText a.bytes :=
  (h.marked a ha).fingerprint

theorem pairwise_bytes_ne (h : ToldApart findings) :
    findings.Pairwise fun a b => a.bytes ≠ b.bytes :=
  h.differ.imp_of_mem fun ha hb hDiffers => hDiffers.bytes_ne (h.marked _ ha) (h.marked _ hb)

theorem fingerprints_nodup (h : ToldApart findings) (hFree : CollisionFree findings) :
    (findings.map (·.fingerprint)).Nodup := by
  apply List.pairwise_map.mpr
  apply h.pairwise_bytes_ne.imp_of_mem
  intro a b ha hb hBytes hFingerprint
  rw [h.fingerprint_eq ha, h.fingerprint_eq hb] at hFingerprint
  exact hBytes (hFree a ha b hb hFingerprint)

end ToldApart

end Finding

/-- Compared with nothing, findings with fingerprints of their own are all introduced. -/
theorem Diff.introduced_perm {findings : List Finding}
    (h : (findings.map (·.fingerprint)).Nodup) (threshold : Severity) :
    (compute [] findings threshold).introduced.findings.Perm findings := by
  have hSelects := introduced_selects [] findings threshold
  rw [List.perm_ext_iff_of_nodup hSelects.ascending.nodup.of_map h.of_map]
  intro finding
  constructor
  · intro hMem
    exact (Finding.first?_eq_some (hSelects.first finding hMem)).1
  · intro hMem
    obtain ⟨same, hSame, hFingerprint⟩ := List.mem_map.mp ((hSelects.mem_fingerprints _).mpr
      ⟨List.mem_map_of_mem hMem, List.not_mem_nil⟩)
    obtain ⟨hFirst, -⟩ := Finding.first?_eq_some (hSelects.first same hSame)
    obtain rfl := List.inj_on_of_nodup_map h hFirst hMem hFingerprint
    exact hSame

namespace Report

/-- The findings of a run are told apart. They have the digests of different bytes, so that, as long as
the digest does not collide on these, a comparison with an empty run introduces all of them. -/
structure TellsApart (index : Index) (settings : Config) : Prop where
  digests : ∀ a ∈ runFindings index settings, a.fingerprint = Fingerprint.digestText a.bytes
  bytes : (runFindings index settings).Pairwise fun a b => a.bytes ≠ b.bytes
  introduced : Finding.CollisionFree (runFindings index settings) → ∀ run,
    let flags := (ofOutcomes index settings (runChecks index settings) run).flags
    (flags.findings.map (·.fingerprint)).Nodup ∧
      ∀ threshold, (Diff.compute [] flags.findings threshold).introduced.findings.length =
        (runFindings index settings).length

section Run

variable {tree : FileTree} {dataYaml text : String} {requested : List Split} {layout : Layout}
  {files : FileView} {source : Source} {config : Config} {options : IndexOptions}
  {decoder : Decoder} {cache : IndexCache} {index : Index}

theorem tellsApart_of_named (h : index.Named) (settings : Config) : TellsApart index settings := by
  have hApart := toldApart_runFindings h settings
  refine ⟨fun a => hApart.fingerprint_eq, hApart.pairwise_bytes_ne, fun hFree run => ?_⟩
  have hPerm : (ofOutcomes index settings (runChecks index settings) run).flags.findings.Perm
      (runFindings index settings) := List.mergeSort_perm _ _
  have hNodup := (hPerm.map (·.fingerprint)).nodup_iff.mpr (hApart.fingerprints_nodup hFree)
  exact ⟨hNodup, fun threshold => ((Diff.introduced_perm hNodup threshold).trans hPerm).length_eq⟩

/-- The findings of a run on a scanned dataset are told apart, whatever is asked of the checks and
known of the images from earlier runs, if the label files without an image are called differently in
each split. That they are, unless a relative root lies strictly below a directory of labels. -/
theorem findings_told_apart (hLayout : Layout.parse dataYaml text requested = .ok layout)
    (hShort : Scan.ShortLabels tree layout) (hScan : scan tree layout = .ok source)
    (hBuild : Index.build files source config options decoder cache = .ok index)
    (hNames : index.Unmarked) :
    ((∀ found ∈ source.splits, found.orphanLabels.Nodup) →
      ∀ settings, TellsApart index settings) ∧
    (tree.WellFormed → (∀ part ∈ layout.splits, ¬ Scan.Encloses part.labelsDir layout.root) →
      ∀ found ∈ source.splits, found.orphanLabels.Nodup) := by
  constructor
  · intro hOrphans settings
    have hSource := Scan.distinct_of_scan (Layout.splits_nodup_of_parse hLayout) hShort hScan hOrphans
    exact tellsApart_of_named (Index.named_of_build hSource hBuild hNames) settings
  · intro hTree hApart found hFound
    obtain ⟨-, hSplits, -⟩ := Scan.scan_eq_ok_iff.mp hScan
    obtain ⟨part, hPart, hSplit⟩ := Scan.exists_of_mem_mapM hSplits hFound
    exact Scan.orphanLabels_nodup hTree ((Layout.plain_of_parse hLayout).labels part hPart)
      (hApart part hPart) hSplit

end Run

/-- A dataset with two lines that are no annotations, a label file without an image, and a class
without instances. -/
def troubled : FileTree :=
  (IndexCache.labelled "x\ny\n").put ["d", "labels", "z.txt"] (.file [] 1)

/-- Its layout. -/
def troubledLayout : Layout :=
  { IndexCache.labelledLayout with classNames := ["a"] }

/-- Its index. -/
def troubledIndex : Except AuditError Index :=
  (scan troubled troubledLayout).bind fun source =>
    Index.build troubled.view source {} {} .header .empty

theorem troubled_told_apart :
    Layout.parse "/d/data.yaml" "names: [a]\ntrain: images\n" [] = .ok troubledLayout ∧
    Scan.ShortLabels troubled troubledLayout ∧ troubled.WellFormed ∧
    ∃ source index, scan troubled troubledLayout = .ok source ∧
      Index.build troubled.view source {} {} .header .empty = .ok index ∧ index.Unmarked ∧
      (runFindings index {}).length = 4 ∧ Finding.CollisionFree (runFindings index {}) ∧
      TellsApart index {} ∧
      ∀ threshold run, (Diff.compute [] (ofOutcomes index {} (runChecks index {}) run).flags.findings
        threshold).introduced.findings.length = 4 := by
  have hLayout : Layout.parse "/d/data.yaml" "names: [a]\ntrain: images\n" [] = .ok troubledLayout :=
    Except.eq_ok_of_toOption (by decide +kernel)
  have hShort : Scan.ShortLabels troubled troubledLayout := by
    unfold Scan.ShortLabels
    decide +kernel
  have hTree : troubled.WellFormed := FileTree.wellFormed_of_toList (by decide +kernel)
  have hRoot : ∀ part ∈ troubledLayout.splits,
      ¬ Scan.Encloses part.labelsDir troubledLayout.root :=
    fun _ _ ⟨_, hRelative, _⟩ => nomatch hRelative
  have hIndex : troubledIndex.toOption.any (fun index => index.Unmarked ∧
      (runFindings index {}).length = 4 ∧ Finding.CollisionFree (runFindings index {})) = true := by
    decide +kernel
  obtain ⟨index, hRun, hIndex⟩ := Except.exists_of_toOption_any hIndex
  obtain ⟨source, hScan, hBuild⟩ := Except.exists_of_bind hRun
  obtain ⟨hNames, hLength, hFree⟩ := of_decide_eq_true hIndex
  obtain ⟨hTold, hOrphans⟩ := findings_told_apart hLayout hShort hScan hBuild hNames
  have hApart := hTold (hOrphans hTree hRoot) {}
  refine ⟨hLayout, hShort, hTree, source, index, hScan, hBuild, hNames, hLength, hFree, hApart, ?_⟩
  intro threshold run
  exact ((hApart.introduced hFree run).2 threshold).trans hLength

/-- Two label files without images. One lies outside of a relative root, and the other is called below
the root as that one is called in full. -/
def shadowed : FileTree where
  nodes := Std.TreeMap.ofList
    [((["images"] : Location), FileNode.directory), (["labels"], .directory),
      (["labels", "r"], .directory), (["labels", "r", "labels"], .directory),
      (["labels", "r", "labels", "z.txt"], .file [] 1), (["labels", "z.txt"], .file [] 1)]

/-- The layout that has those files for training. -/
def shadowedLayout : Layout where
  dataYaml := "labels/r/data.yaml"
  root := .ofString "labels/r"
  classNames := ["a"]
  splits := [⟨.train, .ofString "images", .ofString "labels"⟩]

/-- Their index. -/
def shadowedIndex : Except AuditError Index :=
  (scan shadowed shadowedLayout).bind fun source =>
    Index.build shadowed.view source {} {} .header .empty

theorem shadowed_confused :
    Layout.parse "labels/r/data.yaml" "names: [a]\ntrain: ../../images\n" [] = .ok shadowedLayout ∧
    Scan.ShortLabels shadowed shadowedLayout ∧ shadowed.WellFormed ∧
    ∃ source index, scan shadowed shadowedLayout = .ok source ∧
      Index.build shadowed.view source {} {} .header .empty = .ok index ∧ index.Unmarked ∧
      source.splits.map SplitSource.orphanLabels = [["labels/z.txt", "labels/z.txt"]] ∧
      ¬ (runFindings index {}).Pairwise fun a b => a.bytes ≠ b.bytes := by
  have hLayout : Layout.parse "labels/r/data.yaml" "names: [a]\ntrain: ../../images\n" [] =
      .ok shadowedLayout :=
    Except.eq_ok_of_toOption (by decide +kernel)
  have hShort : Scan.ShortLabels shadowed shadowedLayout := by
    unfold Scan.ShortLabels
    decide +kernel
  have hTree : shadowed.WellFormed := FileTree.wellFormed_of_toList (by decide +kernel)
  have hOrphans : (scan shadowed shadowedLayout).toOption.map
      (fun source => source.splits.map SplitSource.orphanLabels) =
        some [["labels/z.txt", "labels/z.txt"]] := by
    decide +kernel
  have hIndex : shadowedIndex.toOption.any (fun index => index.Unmarked ∧
      ¬ (runFindings index {}).Pairwise fun a b => a.bytes ≠ b.bytes) = true := by
    decide +kernel
  obtain ⟨index, hRun, hIndex⟩ := Except.exists_of_toOption_any hIndex
  obtain ⟨source, hScan, hBuild⟩ := Except.exists_of_bind hRun
  rw [hScan] at hOrphans
  obtain ⟨hNames, hBytes⟩ := of_decide_eq_true hIndex
  exact ⟨hLayout, hShort, hTree, source, index, hScan, hBuild, hNames, Option.some.inj hOrphans,
    hBytes⟩

end Report

end DatasetAudit
