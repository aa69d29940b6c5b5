import DatasetAudit.Proofs.Path.Text

/-! Names with an extension. The extension is what follows the last dot, and what stands before that
dot is the stem; a dot at the front of a name begins no extension. -/

namespace DatasetAudit

namespace Path

variable {name stem extension : String} {parts : List PathPart}

/-- A stem, a dot and an extension. The extension has no dot, the stem may have some. -/
structure Suffixed (name stem extension : String) : Prop where
  text : name = stem ++ "." ++ extension
  stem : stem ≠ ""
  extension : '.' ∉ extension.toList

theorem Suffixed.splitName (h : Suffixed name stem extension) :
    splitName name = (stem, some extension) := by
  have hReverse : name.toList.reverse =
      extension.toList.reverse ++ '.' :: stem.toList.reverse := by
    simp [h.text]
  have hLetters : ∀ c ∈ extension.toList.reverse, (c != '.') = true := by
    intro c hMem
    rw [bne_iff_ne]
    rintro rfl
    exact h.extension (List.mem_reverse.mp hMem)
  have hStem : stem.toList.reverse.isEmpty = false := by
    simpa [String.toList_eq_nil_iff] using h.stem
  simp only [Path.splitName, hReverse, List.takeWhile_append_of_pos hLetters,
    List.dropWhile_append_of_pos hLetters, List.takeWhile_cons, List.dropWhile_cons, bne_self_eq_false,
    Bool.false_eq_true, if_false, List.drop_succ_cons, List.drop_zero, hStem, List.append_nil,
    List.reverse_reverse, String.ofList_toList]

/-- A name has an extension if a dot stands in it, other than at the front. -/
theorem extension?_eq_some_iff : extension? name = some extension ↔
    ∃ stem, Suffixed name stem extension := by
  constructor
  · intro h
    rw [extension?, Path.splitName] at h
    split at h
    · cases h
    · rename_i hStem
      obtain rfl := Option.some.inj h
      -- The reversed name is its extension, a dot, and the stem.
      obtain ⟨c, rest, hRest⟩ : ∃ c rest, name.toList.reverse.dropWhile (· != '.') = c :: rest := by
        apply List.exists_cons_of_ne_nil
        intro hNil
        simp [hNil] at hStem
      have hDot : c = '.' := by
        have hHead := List.head_dropWhile_not (· != '.') (l := name.toList.reverse) (by simp [hRest])
        simpa [hRest] using hHead
      have hSplit := List.takeWhile_append_dropWhile (p := (· != '.')) (l := name.toList.reverse)
      rw [hRest, hDot] at hSplit
      rw [hRest, List.drop_succ_cons, List.drop_zero] at hStem
      refine ⟨String.ofList rest.reverse, ?_, ?_, ?_⟩
      · rw [← String.toList_inj, ← List.reverse_inj]
        simp only [String.toList_append, String.toList_ofList, List.reverse_append,
          List.reverse_reverse]
        exact hSplit.symm
      · simpa [← String.toList_eq_nil_iff] using hStem
      · rw [String.toList_ofList, List.mem_reverse]
        intro hMem
        have hAll := List.all_takeWhile (p := (· != '.')) (l := name.toList.reverse)
        simpa using List.all_eq_true.mp hAll _ hMem
  · rintro ⟨stem, hStem⟩
    rw [extension?, hStem.splitName]

end Path

end DatasetAudit
