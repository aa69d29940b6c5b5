import DatasetAudit.Distribution.Basic
import DatasetAudit.Proofs.Grouping
import DatasetAudit.Proofs.Counting

/-! Histograms read as numbers of rows. Adding rows one after the other counts each class modulo the
size of a word, so below that size a histogram holds the numbers of rows themselves, and so do its
total, its rare classes, its largest class, and the histograms of the splits together. -/

namespace DatasetAudit

/-- The annotation rows of some entries. -/
def rowsOf (entries : List IndexEntry) : List AnnotationRow :=
  entries.flatMap fun entry => entry.labels.rows

/-- The number of rows of a class. -/
def classRows (entries : List IndexEntry) (c : Nat) : Nat :=
  (rowsOf entries).countP fun row => row.classId.toInt = (c : Int)

/-- The first of some classes that has the largest count. -/
structure IsFirstLargest (count : Nat → Nat) (classCount c : Nat) : Prop where
  isClass : c < classCount
  largest : ∀ other < classCount, count other ≤ count c
  first : ∀ other < c, count other < count c

theorem toNat_ofNat_classRows {entries : List IndexEntry}
    (h : (rowsOf entries).length < UInt64.size) (c : Nat) :
    (UInt64.ofNat (classRows entries c)).toNat = classRows entries c :=
  UInt64.toNat_ofNat_of_lt' (List.countP_le_length.trans_lt h)

theorem length_rowsOf_entriesIn_le (index : Index) (split : Split) :
    (rowsOf (index.entriesIn split)).length ≤ (rowsOf index.entries).length :=
  (List.filter_sublist.flatMap _).length_le

/-- Rows of a class are counted entry by entry. -/
theorem classRows_eq_sum (entries : List IndexEntry) (c : Nat) :
    classRows entries c = (entries.map fun entry =>
      entry.labels.rows.countP fun row => row.classId.toInt = (c : Int)).sum := by
  rw [classRows, rowsOf, List.countP_flatMap]
  rfl

namespace ClassHistogram

variable {h : ClassHistogram} {classCount c : Nat} {g : Nat → UInt64}

/-- One more row makes its class one larger, if it is one of the classes. -/
theorem getElem?_add (h : ClassHistogram) (id : Int64) (c : Nat) :
    (h.add id).counts[c]? = h.counts[c]?.map fun n => n + if id.toInt = c then 1 else 0 := by
  rw [add]
  split
  · rename_i hNonneg
    have hPlace : id.toInt.toNat = c ↔ id.toInt = c := by omega
    simp only [List.getElem?_modify, hPlace]
    split <;> simp
  · rename_i hNegative
    have hElsewhere : id.toInt ≠ c := by omega
    simp [hElsewhere]

theorem getElem?_foldl_add (h : ClassHistogram) (rows : List AnnotationRow) (c : Nat) :
    (rows.foldl (fun h row => h.add row.classId) h).counts[c]? = h.counts[c]?.map fun n =>
      n + UInt64.ofNat (rows.countP fun row => row.classId.toInt = (c : Int)) := by
  induction rows generalizing h with
  | nil => simp
  | cons row rows ih =>
      rw [List.foldl_cons, ih, getElem?_add, Option.map_map]
      apply congrArg (Option.map · _)
      funext n
      by_cases hRow : row.classId.toInt = (c : Int)
      · simp [hRow, UInt64.ofNat_add, UInt64.add_assoc, UInt64.add_comm]
      · simp [hRow]

/-- A histogram holds the numbers of rows of the classes, modulo the size of a word. -/
theorem counts_histogramOf (classCount : Nat) (entries : List IndexEntry) :
    (histogramOf classCount entries).counts =
      (List.range classCount).map fun c => UInt64.ofNat (classRows entries c) := by
  apply List.ext_getElem?
  intro c
  rw [histogramOf, getElem?_foldl_add, empty, List.getElem?_map]
  by_cases hClass : c < classCount
  · simp [hClass, classRows, rowsOf]
  · simp [hClass]

/-- The number of rows that a histogram has counted of a class. -/
def count (h : ClassHistogram) (c : Nat) : Nat :=
  (h.counts.getD c 0).toNat

theorem length_counts_histogramOf (classCount : Nat) (entries : List IndexEntry) :
    (histogramOf classCount entries).counts.length = classCount := by
  rw [counts_histogramOf, List.length_map, List.length_range]

theorem count_histogramOf {entries : List IndexEntry}
    (hRows : (rowsOf entries).length < UInt64.size) (hClass : c < classCount) :
    (histogramOf classCount entries).count c = classRows entries c := by
  rw [count, counts_histogramOf, List.getD_eq_getElem _ _ (by simpa using hClass), List.getElem_map,
    List.getElem_range, toNat_ofNat_classRows hRows]

theorem foldl_add_eq (numbers : List Nat) (start : UInt64) :
    (numbers.map UInt64.ofNat).foldl (· + ·) start = start + UInt64.ofNat numbers.sum := by
  induction numbers generalizing start with
  | nil => simp
  | cons number numbers ih =>
      rw [List.map_cons, List.foldl_cons, ih, List.sum_cons, UInt64.ofNat_add, UInt64.add_assoc]

theorem total_histogramOf (classCount : Nat) (entries : List IndexEntry) :
    (histogramOf classCount entries).total =
      UInt64.ofNat ((List.range classCount).map (classRows entries)).sum := by
  have hCounts : (histogramOf classCount entries).counts =
      ((List.range classCount).map (classRows entries)).map UInt64.ofNat := by
    rw [counts_histogramOf, List.map_map]
    rfl
  rw [total, hCounts, foldl_add_eq, UInt64.zero_add]

/-- The classes add up to the rows that have one of them. -/
theorem sum_classRows (classCount : Nat) (entries : List IndexEntry) :
    ((List.range classCount).map (classRows entries)).sum =
      (rowsOf entries).countP fun row =>
        0 ≤ row.classId.toInt ∧ row.classId.toInt < (classCount : Int) := by
  have hKeys : ((List.range classCount).map fun c : Nat => (c : Int)).Nodup :=
    List.nodup_range.map Nat.cast_injective
  have hSum : ((List.range classCount).map (classRows entries)).sum =
      (rowsOf entries).countP fun row =>
        row.classId.toInt ∈ (List.range classCount).map fun c : Nat => (c : Int) := by
    rw [← sum_countP hKeys, List.map_map]
    rfl
  rw [hSum]
  apply List.countP_congr
  intro row _
  rw [decide_eq_true_iff, decide_eq_true_iff, List.mem_map]
  constructor
  · rintro ⟨c, hClass, hRow⟩
    rw [List.mem_range] at hClass
    omega
  · rintro ⟨hNonneg, hClass⟩
    exact ⟨row.classId.toInt.toNat, List.mem_range.mpr (by omega), by omega⟩

theorem zipIdx_map_range (g : Nat → UInt64) (classCount : Nat) :
    ((List.range classCount).map g).zipIdx = (List.range classCount).map fun c => (g c, c) :=
  List.ext_getElem (by simp) (by simp)

theorem lowSupport_eq (hCounts : h.counts = (List.range classCount).map g) (limit : UInt64) :
    h.lowSupport limit =
      ((List.range classCount).filter fun c => g c < limit).map fun c => (c, g c) := by
  rw [lowSupport, hCounts, zipIdx_map_range, List.filter_map, List.map_map]
  rfl

/-- The better of the best class so far, with its count, and the next class. -/
def larger (g : Nat → UInt64) (best : Nat × UInt64) (c : Nat) : Nat × UInt64 :=
  if best.2 < g c then (c, g c) else best

/-- The best of the first classes: none of them has a larger count, and unless that count is zero it
is the first that has it. -/
structure BestBelow (g : Nat → UInt64) (classCount : Nat) (best : Nat × UInt64) : Prop where
  largest : ∀ c < classCount, g c ≤ best.2
  first : best.2 = 0 ∨ best.1 < classCount ∧ g best.1 = best.2 ∧ ∀ c < best.1, g c < best.2

theorem BestBelow.step {best : Nat × UInt64} (h : BestBelow g classCount best) :
    BestBelow g (classCount + 1) (larger g best classCount) := by
  unfold larger
  split
  · rename_i hLarger
    have hBelow (c : Nat) (hc : c < classCount) : g c < g classCount :=
      UInt64.lt_of_le_of_lt (h.largest c hc) hLarger
    refine ⟨fun c hc => ?_, .inr ⟨Nat.lt_succ_self _, rfl, hBelow⟩⟩
    rcases Nat.lt_succ_iff_lt_or_eq.mp hc with hc | rfl
    · exact UInt64.le_of_lt (hBelow c hc)
    · exact UInt64.le_refl _
  · rename_i hSmaller
    refine ⟨fun c hc => ?_, h.first.imp_right fun ⟨hClass, hFirst⟩ =>
      ⟨hClass.trans_le (Nat.le_succ _), hFirst⟩⟩
    rcases Nat.lt_succ_iff_lt_or_eq.mp hc with hc | rfl
    · exact h.largest c hc
    · exact UInt64.not_lt.mp hSmaller

theorem bestBelow_foldl (g : Nat → UInt64) (classCount : Nat) :
    BestBelow g classCount ((List.range classCount).foldl (larger g) (0, 0)) := by
  induction classCount with
  | zero => exact ⟨nofun, .inl rfl⟩
  | succ classCount ih =>
      rw [List.range_succ, List.foldl_append]
      exact ih.step

theorem dominant?_eq (hCounts : h.counts = (List.range classCount).map g) :
    h.dominant? = if h.total == 0 then none else
      let best := (List.range classCount).foldl (larger g) (0, 0)
      some (best.1, best.2.toFloat / h.total.toFloat) := by
  rw [dominant?, hCounts, zipIdx_map_range, List.foldl_map]
  rfl

/-- The dominant class is the first of those with the most rows. -/
theorem isFirstLargest_of_dominant? {entries : List IndexEntry} {share : Float}
    (hRows : (rowsOf entries).length < UInt64.size)
    (h : (histogramOf classCount entries).dominant? = some (c, share)) :
    IsFirstLargest (classRows entries) classCount c ∧ 0 < classRows entries c := by
  have hNat := toNat_ofNat_classRows hRows
  rw [dominant?_eq (counts_histogramOf classCount entries)] at h
  split at h
  · cases h
  · rename_i hTotal
    have hBest := bestBelow_foldl (fun c => UInt64.ofNat (classRows entries c)) classCount
    generalize (List.range classCount).foldl
      (larger fun c => UInt64.ofNat (classRows entries c)) (0, 0) = best at h hBest
    obtain ⟨rfl, -⟩ := Prod.mk.inj (Option.some.inj h)
    have hLargest (c : Nat) (hc : c < classCount) : classRows entries c ≤ best.2.toNat := by
      rw [← hNat]
      exact UInt64.le_iff_toNat_le.mp (hBest.largest c hc)
    -- Were the largest count zero, so would be the total, which has been ruled out.
    have hSome : best.2 ≠ 0 := by
      intro hZero
      have hSum : ((List.range classCount).map (classRows entries)).sum = 0 := by
        rw [List.sum_eq_zero_iff_forall_eq_nat]
        simpa [hZero] using hLargest
      exact hTotal (by rw [total_histogramOf, hSum]; rfl)
    obtain ⟨hClass, hEq, hFirst⟩ := hBest.first.resolve_left hSome
    have hCount : classRows entries best.1 = best.2.toNat := by rw [← hNat, hEq]
    refine ⟨⟨hClass, fun other hOther => ?_, fun other hOther => ?_⟩, ?_⟩
    · rw [hCount]
      exact hLargest other hOther
    · rw [hCount, ← hNat]
      exact UInt64.lt_iff_toNat_lt.mp (hFirst other hOther)
    · rw [hCount, Nat.pos_iff_ne_zero]
      exact fun hZero => hSome (UInt64.toNat_inj.mp hZero)

/-- A class with annotations is one of those that are counted. -/
theorem lt_length_of_dominant? {share : Float}
    (hDominant : h.dominant? = some (c, share)) : c < h.counts.length := by
  simp only [dominant?] at hDominant
  split at hDominant
  · cases hDominant
  · rename_i hTotal
    have hSome : 0 < h.counts.length := by
      rw [List.length_pos_iff]
      intro hNil
      exact hTotal (by rw [total, hNil]; rfl)
    obtain ⟨rfl, -⟩ := Prod.mk.inj (Option.some.inj hDominant)
    refine List.foldlRecOn (motive := fun best : Nat × UInt64 => best.1 < h.counts.length) _ _ hSome
      fun best hBest part hPart => ?_
    split
    · exact (List.mem_zipIdx' hPart).1
    · exact hBest

theorem lt_length_of_mem_lowSupport {limit count : UInt64}
    (hMem : (c, count) ∈ h.lowSupport limit) : c < h.counts.length := by
  obtain ⟨part, hPart, hEq⟩ := List.mem_map.mp hMem
  obtain ⟨rfl, -⟩ := Prod.mk.inj hEq
  exact (List.mem_zipIdx' (List.mem_filter.mp hPart).1).1

end ClassHistogram

namespace Distribution

variable {index : Index} {split : Split} {histogram : ClassHistogram}

/-- A split has a histogram, that of its entries, if it has an entry. -/
theorem perSplit_ofIndex (index : Index) : (ofIndex index).perSplit =
    (Split.all.filter fun split => !(index.entriesIn split).isEmpty).map fun split =>
      (split, histogramOf index.classCount (index.entriesIn split)) := by
  rw [← List.filterMap_eq_map, List.filterMap_filter]
  apply List.filterMap_congr
  intro split _
  cases hEmpty : (index.entriesIn split).isEmpty <;> simp [hEmpty]

theorem mem_perSplit_ofIndex : (split, histogram) ∈ (ofIndex index).perSplit ↔
    (∃ entry ∈ index.entries, entry.split = split) ∧
      histogram = histogramOf index.classCount (index.entriesIn split) := by
  have hSome : (index.entriesIn split).isEmpty = false ↔
      ∃ entry ∈ index.entries, entry.split = split := by
    simp [Index.entriesIn]
  have hAll : split ∈ Split.all := by cases split <;> decide
  rw [perSplit_ofIndex, List.mem_map, ← hSome]
  constructor
  · rintro ⟨split, hSplit, hEq⟩
    obtain ⟨rfl, rfl⟩ := Prod.mk.inj hEq
    exact ⟨by simpa using (List.mem_filter.mp hSplit).2, rfl⟩
  · rintro ⟨hSplit, rfl⟩
    exact ⟨split, List.mem_filter.mpr ⟨hAll, by simp [hSplit]⟩, rfl⟩

theorem perSplit_ofIndex_ascending (index : Index) : Ascending (·.1) (ofIndex index).perSplit := by
  have hAll : Ascending id Split.all := by decide
  rw [perSplit_ofIndex]
  exact List.pairwise_map.mpr (hAll.filter _)

/-- The rows of a class are those in the splits together. -/
theorem sum_classRows_perSplit (index : Index) (c : Nat) :
    ((ofIndex index).perSplit.map fun part => classRows (index.entriesIn part.1) c).sum =
      classRows index.entries c := by
  have hNodup : (Split.all.filter fun split => !(index.entriesIn split).isEmpty).Nodup := by
    have hAll : Split.all.Nodup := by decide
    exact hAll.filter _
  have hKeep : (index.entries.filter fun entry =>
      entry.split ∈ Split.all.filter fun split => !(index.entriesIn split).isEmpty) =
        index.entries := by
    rw [List.filter_eq_self]
    intro entry hEntry
    have hAll : entry.split ∈ Split.all := by cases entry.split <;> decide
    have hSome : (index.entriesIn entry.split).isEmpty = false := by
      rw [List.isEmpty_eq_false_iff_exists_mem]
      exact ⟨entry, List.mem_filter.mpr ⟨hEntry, decide_eq_true rfl⟩⟩
    simp [hAll, hSome]
  rw [perSplit_ofIndex, List.map_map]
  simp only [Function.comp_def, classRows_eq_sum]
  refine (sum_sum_filter hNodup index.entries _).trans ?_
  rw [hKeep]

end Distribution

end DatasetAudit
