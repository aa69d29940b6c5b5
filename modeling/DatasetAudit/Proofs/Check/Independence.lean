import DatasetAudit.Proofs.Check.Outcome
import DatasetAudit.Proofs.Index.Sample

/-! Checks side by side. What a check finds depends on its own settings and on no other check: the
clusters that several checks share are there whenever one of them is to run, whoever else asks for
them. Only leakage borrows a setting, the distance up to which near duplicates are close. -/

namespace DatasetAudit

namespace Config

/-- Two configurations have the same settings for a check. Those of leakage include the distance of
near duplicates if it looks at them. -/
def AgreeOn (config other : Config) : CheckKind → Prop
  | .integrity => config.checks.integrity = other.checks.integrity
  | .classDistribution => config.checks.classDistribution = other.checks.classDistribution
  | .bboxSanity => config.checks.boxSanity = other.checks.boxSanity
  | .duplicates => config.checks.duplicates = other.checks.duplicates
  | .nearDuplicates => config.checks.nearDuplicates = other.checks.nearDuplicates
  | .leakage => config.checks.leakage = other.checks.leakage ∧
      (config.checks.leakage.includeNearDup = true →
        config.checks.nearDuplicates.phashHammingThreshold =
          other.checks.nearDuplicates.phashHammingThreshold)

/-- The configuration with a check switched on or off. -/
def switch (config : Config) (kind : CheckKind) (enabled : Bool) : Config :=
  let checks := config.checks
  let checks : ChecksConfig :=
    match kind with
    | .integrity => { checks with integrity := { checks.integrity with enabled } }
    | .classDistribution =>
      { checks with classDistribution := { checks.classDistribution with enabled } }
    | .bboxSanity => { checks with boxSanity := { checks.boxSanity with enabled } }
    | .duplicates => { checks with duplicates := { checks.duplicates with enabled } }
    | .nearDuplicates => { checks with nearDuplicates := { checks.nearDuplicates with enabled } }
    | .leakage => { checks with leakage := { checks.leakage with enabled } }
  { config with checks }

variable {config other : Config} {kind switched : CheckKind}

/-- Switching a check changes the settings of no other. -/
theorem switch_agreeOn (enabled : Bool) (h : switched ≠ kind) :
    (config.switch switched enabled).AgreeOn config kind := by
  cases kind <;> cases switched <;> first | exact absurd rfl h | exact rfl | exact ⟨rfl, fun _ => rfl⟩

theorem AgreeOn.isEnabled_eq (h : config.AgreeOn other kind) :
    config.isEnabled kind = other.isEnabled kind := by
  cases kind with
  | integrity => exact congrArg IntegrityConfig.enabled h
  | classDistribution => exact congrArg ClassDistributionConfig.enabled h
  | bboxSanity => exact congrArg BoxSanityConfig.enabled h
  | duplicates => exact congrArg DuplicatesConfig.enabled h
  | nearDuplicates => exact congrArg NearDuplicatesConfig.enabled h
  | leakage => exact congrArg LeakageConfig.enabled h.1

end Config

section Clusters

variable {index : Index} {config : Config}

/-- Whoever looks at exact clusters sees all of them. -/
theorem ClusterSet.exact_build
    (h : config.isEnabled .duplicates = true ∨ config.isEnabled .leakage = true) :
    (build index config).exact = exactClusters index :=
  if_pos (Bool.or_eq_true_iff.mpr h)

/-- Whoever looks at near clusters sees those of the one threshold, or that there are none. -/
theorem ClusterSet.near_build (h : config.wantsPerceptualHashes = true) :
    (build index config).near =
      if index.perceptualHashing then
        some (nearClusters index config.checks.nearDuplicates.phashHammingThreshold.toNat)
      else none := by
  rw [build, h, Bool.and_true]

theorem Config.wantsPerceptualHashes_of_leakage (hEnabled : config.isEnabled .leakage = true)
    (hNear : config.checks.leakage.includeNearDup = true) : config.wantsPerceptualHashes = true := by
  have hEnabled : config.checks.leakage.enabled = true := hEnabled
  rw [wantsPerceptualHashes, hEnabled, hNear, Bool.and_true, Bool.or_true]

end Clusters

namespace Config.AgreeOn

variable {index : Index} {config other : Config} {kind : CheckKind}

/-- Near clusters that leakage looks at are the same under configurations that agree on it. -/
theorem near_eq (h : config.AgreeOn other .leakage) (hEnabled : config.isEnabled .leakage = true)
    (hNear : config.checks.leakage.includeNearDup = true) :
    (ClusterSet.build index config).near = (ClusterSet.build index other).near := by
  have hNear' : other.checks.leakage.includeNearDup = true := h.1 ▸ hNear
  have hEnabled' : other.isEnabled .leakage = true := h.isEnabled_eq ▸ hEnabled
  rw [ClusterSet.near_build (wantsPerceptualHashes_of_leakage hEnabled hNear),
    ClusterSet.near_build (wantsPerceptualHashes_of_leakage hEnabled' hNear'), h.2 hNear]

/-- A check that is to run gives the same result. -/
theorem evaluate_eq (h : config.AgreeOn other kind) (hEnabled : config.isEnabled kind = true) :
    kind.evaluate index config (ClusterSet.build index config) =
      kind.evaluate index other (ClusterSet.build index other) := by
  have hEnabled' : other.isEnabled kind = true := h.isEnabled_eq ▸ hEnabled
  cases kind with
  | integrity => rfl
  | classDistribution =>
      have hSection : config.checks.classDistribution = other.checks.classDistribution := h
      simp only [CheckKind.evaluate, hSection]
  | bboxSanity =>
      have hSection : config.checks.boxSanity = other.checks.boxSanity := h
      simp only [CheckKind.evaluate, hSection]
  | duplicates =>
      simp only [CheckKind.evaluate, ClusterSet.exact_build (.inl hEnabled),
        ClusterSet.exact_build (.inl hEnabled')]
  | nearDuplicates =>
      have hSection : config.checks.nearDuplicates = other.checks.nearDuplicates := h
      have hWants {config : Config} (hEnabled : config.isEnabled .nearDuplicates = true) :
          config.wantsPerceptualHashes = true :=
        Bool.or_eq_true_iff.mpr (.inl hEnabled)
      simp only [CheckKind.evaluate, ClusterSet.near_build (hWants hEnabled),
        ClusterSet.near_build (hWants hEnabled'), hSection]
  | leakage =>
      simp only [CheckKind.evaluate, Leakage.findings, ClusterSet.exact_build (.inr hEnabled),
        ClusterSet.exact_build (.inr hEnabled'), ← h.1]
      split
      · rename_i hNear
        rw [h.near_eq hEnabled hNear]
      · rfl

/-- A check that is to run leaves out the same. -/
theorem gap?_eq (h : config.AgreeOn other kind) (hEnabled : config.isEnabled kind = true) :
    kind.gap? config (ClusterSet.build index config) =
      kind.gap? other (ClusterSet.build index other) := by
  unfold CheckKind.gap?
  by_cases hKind : kind = .leakage
  · subst hKind
    have hLacks : Leakage.lacksNear config.checks.leakage (ClusterSet.build index config) =
        Leakage.lacksNear other.checks.leakage (ClusterSet.build index other) := by
      rw [Leakage.lacksNear, Leakage.lacksNear, ← h.1]
      cases hNear : config.checks.leakage.includeNearDup with
      | false => rw [Bool.false_and, Bool.false_and]
      | true => rw [h.near_eq hEnabled hNear]
    rw [hLacks]
  · simp only [hKind, decide_false, Bool.false_and]

theorem ofCheck_eq (h : config.AgreeOn other kind) :
    CheckOutcome.ofCheck index config (ClusterSet.build index config) kind =
      CheckOutcome.ofCheck index other (ClusterSet.build index other) kind := by
  unfold CheckOutcome.ofCheck
  rw [← h.isEnabled_eq]
  split
  · rename_i hEnabled
    rw [h.evaluate_eq hEnabled, h.gap?_eq hEnabled]
  · rfl

end Config.AgreeOn

namespace CheckOutcome

/-- A check has one outcome in a run, and the same under all configurations that agree on its
settings. So it does not matter to it whether another check is to run. -/
theorem eq_of_agreeOn (index : Index) (kind : CheckKind) :
    (∀ config other : Config, config.AgreeOn other kind → ∃ outcome : CheckOutcome,
      outcome.kind = kind ∧
        ((runChecks index config).filter fun outcome => outcome.kind = kind) = [outcome] ∧
        ((runChecks index other).filter fun outcome => outcome.kind = kind) = [outcome]) ∧
    ∀ (config : Config) (switched : CheckKind) (enabled : Bool), switched ≠ kind →
      ((runChecks index (config.switch switched enabled)).filter
        fun outcome => outcome.kind = kind) =
          (runChecks index config).filter fun outcome => outcome.kind = kind := by
  constructor
  · intro config other hAgree
    refine ⟨ofCheck index config (ClusterSet.build index config) kind, kind_ofCheck,
      filter_runChecks index config kind, ?_⟩
    rw [filter_runChecks, hAgree.ofCheck_eq]
  · intro config switched enabled hOther
    rw [filter_runChecks, filter_runChecks, (Config.switch_agreeOn enabled hOther).ofCheck_eq]

/-- An image of the training split that is in the test split too, and one there that looks like it. -/
def shared : Index :=
  .ofEntries
    [.ofHashes .train "a.png" (some "aa") (some 0), .ofHashes .test "b.png" (some "aa") (some 0),
      .ofHashes .test "c.png" (some "cc") (some 1)]

/-- Leakage alone, near duplicates included. -/
def leakageOnly : Config where
  checks :=
    { integrity := { enabled := false }, classDistribution := { enabled := false }
      boxSanity := { enabled := false }, duplicates := { enabled := false }
      leakage := { includeNearDup := true } }

/-- The same leakage beside all other checks, with another gate. -/
def allChecks : Config where
  failOn := .low
  checks := { nearDuplicates := { enabled := true }, leakage := { includeNearDup := true } }

theorem leakage_eq_beside_others : leakageOnly.AgreeOn allChecks .leakage ∧
    CheckKind.duplicates ≠ .leakage ∧
    ∃ outcome : CheckOutcome, outcome.kind = .leakage ∧
      ((runChecks shared leakageOnly).filter fun outcome => outcome.kind = .leakage) = [outcome] ∧
      ((runChecks shared allChecks).filter fun outcome => outcome.kind = .leakage) = [outcome] ∧
      ((runChecks shared (allChecks.switch .duplicates false)).filter
        fun outcome => outcome.kind = .leakage) = [outcome] := by
  have hAgree : leakageOnly.AgreeOn allChecks .leakage := ⟨rfl, fun _ => rfl⟩
  have hOther : CheckKind.duplicates ≠ .leakage := nofun
  obtain ⟨hSame, hSwitch⟩ := eq_of_agreeOn shared .leakage
  obtain ⟨outcome, hKind, hAlone, hBeside⟩ := hSame leakageOnly allChecks hAgree
  refine ⟨hAgree, hOther, outcome, hKind, hAlone, hBeside, ?_⟩
  rw [hSwitch allChecks .duplicates false hOther, hBeside]

end CheckOutcome

end DatasetAudit
