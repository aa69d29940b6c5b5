import DatasetAudit.Proofs.Path.Text
import Mathlib.Data.List.Induction

/-! Normal forms of paths. What is left of a path when its parts are put on a stack one after the
other are ways up, of which an absolute path has none, and names above them. Such parts stay as they
are, so a normal form is its own normal form, and putting two paths together may as well start from
theirs. -/

namespace DatasetAudit

namespace Path

variable {absolute : Bool} {stack parts : List PathPart} {part : PathPart} {path other base : Path}

section Stacks

/-- Names on top of ways up, of which there are none if the stack is that of an absolute path. -/
def IsStack (absolute : Bool) (stack : List PathPart) : Prop :=
  ∃ (names : List String) (ups : Nat),
    stack = names.map .name ++ List.replicate ups .up ∧ (absolute = true → ups = 0)

theorem isStack_nil (absolute : Bool) : IsStack absolute [] :=
  ⟨[], 0, rfl, fun _ => rfl⟩

theorem IsStack.step (h : IsStack absolute stack) (part : PathPart) :
    IsStack absolute (normalStep absolute stack part) := by
  obtain ⟨names, ups, rfl, hUps⟩ := h
  cases part with
  | current => exact ⟨names, ups, rfl, hUps⟩
  | name name => exact ⟨name :: names, ups, rfl, hUps⟩
  | up =>
      cases names with
      | cons _ names => exact ⟨names, ups, rfl, hUps⟩
      | nil =>
          cases absolute with
          | true =>
              obtain rfl := hUps rfl
              exact isStack_nil true
          | false =>
              refine ⟨[], ups + 1, ?_, nofun⟩
              cases ups <;> rfl

theorem IsStack.steps (h : IsStack absolute stack) (parts : List PathPart) :
    IsStack absolute (parts.foldl (normalStep absolute) stack) := by
  induction parts generalizing stack with
  | nil => exact h
  | cons part parts ih => exact ih (h.step part)

/-- The last part of a stack was put on the others as it is. -/
theorem IsStack.of_cons (h : IsStack absolute (part :: stack)) :
    IsStack absolute stack ∧ normalStep absolute stack part = part :: stack := by
  obtain ⟨names, ups, hStack, hUps⟩ := h
  cases names with
  | cons name names =>
      obtain ⟨rfl, rfl⟩ := List.cons.inj hStack
      exact ⟨⟨names, ups, rfl, hUps⟩, rfl⟩
  | nil =>
      cases ups with
      | zero => cases hStack
      | succ ups =>
          obtain ⟨rfl, rfl⟩ := List.cons.inj hStack
          cases absolute with
          | true => cases hUps rfl
          | false =>
              refine ⟨⟨[], ups, rfl, nofun⟩, ?_⟩
              cases ups <;> rfl

/-- The parts of a stack, put on the empty stack in their order, make the stack again. -/
theorem IsStack.steps_reverse (h : IsStack absolute stack) :
    stack.reverse.foldl (normalStep absolute) [] = stack := by
  induction stack with
  | nil => rfl
  | cons part stack ih =>
      obtain ⟨hStack, hStep⟩ := h.of_cons
      rw [List.reverse_cons, List.foldl_append, ih hStack]
      exact hStep

/-- What a relative path leaves on its own stack does to every stack what its parts do. -/
theorem foldl_normalStep_eq (absolute : Bool) (stack parts : List PathPart) :
    (parts.foldl (normalStep false) []).reverse.foldl (normalStep absolute) stack =
      parts.foldl (normalStep absolute) stack := by
  induction parts using List.reverseRecOn with
  | nil => rfl
  | append_singleton parts part ih =>
      rw [List.foldl_append, List.foldl_append, ← ih]
      generalize parts.foldl (normalStep false) [] = left
      cases part with
      | current => rfl
      | name name => simp [normalStep]
      | up =>
          cases left with
          | nil => rfl
          | cons top left =>
              cases top with
              | name name => simp [normalStep]
              | current => simp [normalStep]
              | up => simp [normalStep]

theorem foldl_filter_current (absolute : Bool) (stack parts : List PathPart) :
    (parts.filter (· != .current)).foldl (normalStep absolute) stack =
      parts.foldl (normalStep absolute) stack := by
  induction parts generalizing stack with
  | nil => rfl
  | cons part parts ih =>
      cases part with
      | current => exact ih stack
      | up => exact ih _
      | name name => exact ih _

/-- One part leaves nothing on a stack but what was there, itself and a way up. -/
theorem mem_normalStep {next : PathPart} (h : part ∈ normalStep absolute stack next) :
    part ∈ stack ∨ part = next ∨ part = .up := by
  unfold normalStep at h
  split at h
  · exact .inl h
  · exact (List.mem_cons.mp h).elim (.inr ∘ .inl) .inl
  · split at h
    · exact .inl (List.mem_cons_of_mem _ h)
    · split at h
      · cases h
      · exact .inr (.inr (List.mem_singleton.mp h))
    · exact (List.mem_cons.mp h).elim (.inr ∘ .inr) .inl

/-- Nothing is left on a stack but what was there, parts that were put on it and ways up. -/
theorem mem_foldl_normalStep (h : part ∈ parts.foldl (normalStep absolute) stack) :
    part ∈ stack ∨ part ∈ parts ∨ part = .up := by
  induction parts generalizing stack with
  | nil => exact .inl h
  | cons next parts ih =>
      rcases ih h with hStack | hParts | hUp
      · rcases mem_normalStep hStack with hStack | rfl | hUp
        · exact .inl hStack
        · exact .inr (.inl List.mem_cons_self)
        · exact .inr (.inr hUp)
      · exact .inr (.inl (List.mem_cons_of_mem _ hParts))
      · exact .inr (.inr hUp)

end Stacks

section NormalForms

theorem isStack_normalParts (path : Path) : IsStack path.absolute path.normalParts.reverse := by
  rw [normalParts, List.reverse_reverse]
  exact (isStack_nil path.absolute).steps path.parts

theorem normalParts_of_isStack (h : IsStack absolute parts.reverse) :
    normalParts ⟨absolute, parts⟩ = parts := by
  have hParts := h.steps_reverse
  rw [List.reverse_reverse] at hParts
  rw [normalParts, hParts, List.reverse_reverse]

/-- A normal form is made of the parts that are left, or of the directory itself. -/
theorem normalize_eq (path : Path) : path.normalize = ⟨path.absolute, path.normalParts⟩ ∨
    path.normalize = ⟨false, [.current]⟩ ∧ path.absolute = false ∧ path.normalParts = [] := by
  unfold normalize
  split
  · rename_i hAbsolute hParts
    exact .inr ⟨rfl, hAbsolute, hParts⟩
  · exact .inl rfl

theorem absolute_normalize (path : Path) : path.normalize.absolute = path.absolute := by
  rcases path.normalize_eq with hNormal | ⟨hNormal, hAbsolute, -⟩
  · rw [hNormal]
  · rw [hNormal, hAbsolute]

theorem normalParts_normalize (path : Path) : path.normalize.normalParts = path.normalParts := by
  rcases path.normalize_eq with hNormal | ⟨hNormal, -, hParts⟩
  · rw [hNormal]
    exact normalParts_of_isStack path.isStack_normalParts
  · rw [hNormal, hParts]
    rfl

theorem normalize_eq_normalize_iff : path.normalize = other.normalize ↔
    path.absolute = other.absolute ∧ path.normalParts = other.normalParts := by
  constructor
  · intro h
    rw [← absolute_normalize path, ← absolute_normalize other, ← normalParts_normalize path,
      ← normalParts_normalize other, h]
    exact ⟨rfl, rfl⟩
  · rintro ⟨hAbsolute, hParts⟩
    rw [normalize, normalize, hAbsolute, hParts]

theorem normalize_normalize (path : Path) : path.normalize.normalize = path.normalize :=
  normalize_eq_normalize_iff.mpr ⟨path.absolute_normalize, path.normalParts_normalize⟩

/-- In front of the parts of a relative path there may be anything: its normal form does the same
to a stack. -/
theorem foldl_parts_normalize (h : path.absolute = false) (absolute : Bool)
    (stack : List PathPart) :
    path.normalize.parts.foldl (normalStep absolute) stack =
      path.parts.foldl (normalStep absolute) stack := by
  have hParts : path.normalParts.foldl (normalStep absolute) stack =
      path.parts.foldl (normalStep absolute) stack := by
    rw [normalParts, h]
    exact foldl_normalStep_eq absolute stack path.parts
  rcases path.normalize_eq with hNormal | ⟨hNormal, -, hNone⟩
  · rw [hNormal]
    exact hParts
  · rw [hNormal, ← hParts, hNone]
    rfl

theorem normalParts_join (base : Path) (h : path.absolute = false) :
    (base.join path).normalParts =
      (path.parts.foldl (normalStep base.absolute) base.normalParts.reverse).reverse := by
  have hJoin : base.join path =
      ⟨base.absolute, base.parts ++ path.parts.filter (· != .current)⟩ := by
    rw [join, if_neg (by simp [h])]
  rw [hJoin, normalParts, List.foldl_append, foldl_filter_current, normalParts,
    List.reverse_reverse]

theorem absolute_join_relative (base : Path) (h : path.absolute = false) :
    (base.join path).absolute = base.absolute := by
  rw [join, if_neg (by simp [h])]

/-- Two paths may be brought to their normal forms before they are put together. -/
theorem normalize_join (base : Path) (h : path.absolute = false) :
    (base.join path).normalize = (base.normalize.join path.normalize).normalize := by
  have hNormal : path.normalize.absolute = false := path.absolute_normalize.trans h
  rw [normalize_eq_normalize_iff]
  constructor
  · rw [absolute_join_relative base h, absolute_join_relative _ hNormal, absolute_normalize]
  · rw [normalParts_join base h, normalParts_join _ hNormal, normalParts_normalize,
      absolute_normalize, foldl_parts_normalize h]

/-- Ways up, of which an absolute path has none, and then names of the path. -/
theorem exists_normalParts_eq (path : Path) : ∃ (ups : Nat) (names : List String),
    path.normalParts = List.replicate ups .up ++ names.map .name ∧
      (path.absolute = true → ups = 0) ∧ ∀ name ∈ names, .name name ∈ path.parts := by
  obtain ⟨names, ups, hStack, hUps⟩ := path.isStack_normalParts
  have hParts : path.normalParts = List.replicate ups .up ++ names.reverse.map .name := by
    rw [← List.reverse_reverse path.normalParts, hStack, List.reverse_append,
      List.reverse_replicate, List.map_reverse]
  refine ⟨ups, names.reverse, hParts, hUps, fun name hName => ?_⟩
  have hLeft : .name name ∈ path.parts.foldl (normalStep path.absolute) [] := by
    rw [← List.mem_reverse, ← normalParts, hParts]
    exact List.mem_append_right _ (List.mem_map_of_mem hName)
  rcases mem_foldl_normalStep hLeft with hNone | hMem | hUp
  · cases hNone
  · exact hMem
  · cases hUp

theorem current_notMem_normalParts (path : Path) : .current ∉ path.normalParts := by
  obtain ⟨ups, names, hParts, -⟩ := path.exists_normalParts_eq
  simp [hParts]

/-- Nothing but names is left of an absolute path. -/
theorem normalize_hasNames (hAbsolute : path.absolute = true) (h : path.IsPlain) :
    path.normalize.absolute = true ∧ ∃ names, path.normalize.HasNames names := by
  obtain ⟨ups, names, hParts, hUps, hNames⟩ := path.exists_normalParts_eq
  rcases path.normalize_eq with hNormal | ⟨-, hRelative, -⟩
  · rw [hNormal]
    refine ⟨hAbsolute, names, ?_, fun name hName => h name (hNames name hName)⟩
    rw [hParts, hUps hAbsolute]
    rfl
  · exact absurd hAbsolute (by simp [hRelative])

theorem isPlain_normalize (h : path.IsPlain) : path.normalize.IsPlain := by
  intro name hName
  obtain ⟨ups, names, hParts, -, hNames⟩ := path.exists_normalParts_eq
  rcases path.normalize_eq with hNormal | ⟨hNormal, -⟩
  · rw [hNormal, hParts] at hName
    exact h name (hNames name (by simpa using hName))
  · rw [hNormal] at hName
    simp at hName

end NormalForms

section Texts

theorem foldl_parts_ofPieces (absolute fromRoot : Bool) (stack pieces : List PathPart) :
    (ofPieces fromRoot pieces).parts.foldl (normalStep absolute) stack =
      pieces.foldl (normalStep absolute) stack := by
  unfold ofPieces
  split
  · exact foldl_filter_current absolute stack _
  · exact foldl_filter_current absolute stack pieces

/-- The text of a normal form names that normal form. -/
theorem ofString_text_normalize (h : path.IsPlain) :
    ofString path.normalize.text = path.normalize := by
  rcases path.normalize_eq with hNormal | ⟨hNormal, -⟩
  · apply (isPlain_normalize h).ofString_text
    rw [hNormal]
    exact path.current_notMem_normalParts
  · rw [hNormal]
    decide

/-- Texts that are put together mean what their paths mean when they are. -/
theorem normalize_ofString_joinText (directory : String) {text : String}
    (h : (ofString text).absolute = false) :
    (ofString (joinText directory text)).normalize =
      ((ofString directory).join (ofString text)).normalize := by
  have hAbsolute : (ofString (joinText directory text)).absolute =
      (ofString directory).absolute := by
    by_cases hEmpty : directory.toList = []
    · obtain rfl : directory = "" := String.toList_eq_nil_iff.mp hEmpty
      have hJoin : joinText "" text = text := by simp [joinText]
      rw [hJoin, h]
      rfl
    · rw [absolute_ofString, absolute_ofString, head?_joinText hEmpty]
  rw [normalize_eq_normalize_iff, absolute_join_relative _ h]
  refine ⟨hAbsolute, ?_⟩
  rw [normalParts_join _ h, normalParts, normalParts, List.reverse_reverse, hAbsolute]
  simp only [ofString_eq, foldl_parts_ofPieces, pieces_joinText, List.foldl_append]

end Texts

section Components

/-- A component of a path: its root, or one of its parts. -/
inductive Component where
  | root
  | part (part : PathPart)
deriving DecidableEq

/-- The components of a path, in order. -/
def components (path : Path) : List Component :=
  (if path.absolute then [.root] else []) ++ path.parts.map .part

/-- Puts a component on a stack, the last one first. The directory itself is ignored, and the
directory above cancels the name before it, is dropped at the root and is kept otherwise. -/
def stackUp : List Component → Component → List Component
  | stack, .part .current => stack
  | .part (.name _) :: stack, .part .up => stack
  | .root :: stack, .part .up => .root :: stack
  | stack, component => component :: stack

/-- What the components of a path leave on the stack. -/
def stacked (path : Path) : List Component :=
  path.components.foldl stackUp []

/-- The root lies below everything, and has the effect that an absolute path has on its parts. -/
theorem stackUp_part (absolute : Bool) (stack : List PathPart) (part : PathPart) :
    stackUp (stack.map .part ++ if absolute then [.root] else []) (.part part) =
      (normalStep absolute stack part).map .part ++ if absolute then [.root] else [] := by
  cases part with
  | current => cases stack <;> cases absolute <;> rfl
  | name name => cases stack <;> cases absolute <;> rfl
  | up =>
      cases stack with
      | nil => cases absolute <;> rfl
      | cons top stack => cases top <;> cases absolute <;> rfl

theorem foldl_stackUp_parts (absolute : Bool) (stack parts : List PathPart) :
    (parts.map Component.part).foldl stackUp
        (stack.map .part ++ if absolute then [.root] else []) =
      (parts.foldl (normalStep absolute) stack).map .part ++
        if absolute then [.root] else [] := by
  induction parts generalizing stack with
  | nil => rfl
  | cons part parts ih =>
      rw [List.map_cons, List.foldl_cons, stackUp_part, ih, List.foldl_cons]

theorem stacked_eq (path : Path) : path.stacked =
    path.normalParts.reverse.map .part ++ if path.absolute then [.root] else [] := by
  have hRoot : (if path.absolute then [Component.root] else []).foldl stackUp [] =
      if path.absolute then [Component.root] else [] := by
    cases path.absolute <;> rfl
  rw [stacked, components, List.foldl_append, hRoot, normalParts, List.reverse_reverse]
  exact foldl_stackUp_parts path.absolute [] path.parts

/-- What is left of an absolute path lies on its root, and nothing else lies on one. -/
theorem root_mem_stacked (path : Path) : .root ∈ path.stacked ↔ path.absolute = true := by
  rw [stacked_eq]
  cases path.absolute <;> simp

/-- The normal form and what is left on the stack tell the same about a path. -/
theorem normalize_eq_normalize_iff_stacked :
    path.normalize = other.normalize ↔ path.stacked = other.stacked := by
  have hInjective : Function.Injective Component.part := fun _ _ => Component.part.inj
  rw [normalize_eq_normalize_iff]
  constructor
  · rintro ⟨hAbsolute, hParts⟩
    rw [stacked_eq, stacked_eq, hAbsolute, hParts]
  · intro h
    have hAbsolute : path.absolute = other.absolute := by
      rw [Bool.eq_iff_iff, ← root_mem_stacked, ← root_mem_stacked, h]
    rw [stacked_eq, stacked_eq, hAbsolute, List.append_left_inj] at h
    exact ⟨hAbsolute, List.reverse_injective (hInjective.list_map h)⟩

end Components

end Path

end DatasetAudit
