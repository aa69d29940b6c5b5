import DatasetAudit.Path
import Mathlib.Data.List.Basic

/-! Paths and their texts. Slashes join what they split, so a path of names is the one that its text
names, and a name may be put behind any text. -/

namespace DatasetAudit

namespace Path

/-- A name that stands for itself between slashes. -/
structure IsName (name : String) : Prop where
  nonempty : name.toList ≠ []
  slash : '/' ∉ name.toList
  current : name ≠ "."
  up : name ≠ ".."

variable {name directory : String} {names : List String} {path : Path}

instance (name : String) : Decidable (IsName name) :=
  decidable_of_iff (name.toList ≠ [] ∧ '/' ∉ name.toList ∧ name ≠ "." ∧ name ≠ "..")
    ⟨fun ⟨nonempty, slash, current, up⟩ => ⟨nonempty, slash, current, up⟩,
      fun h => ⟨h.nonempty, h.slash, h.current, h.up⟩⟩

theorem IsName.ofText_eq (h : IsName name) : PathPart.ofText name = .name name := by
  rw [PathPart.ofText, if_neg h.current, if_neg h.up]

section Pieces

/-- What stands between the slashes of a text. -/
def pieces (text : List Char) : List PathPart :=
  ((text.splitOnP (· == '/')).filter fun piece => !piece.isEmpty).map
    fun piece => PathPart.ofText (String.ofList piece)

theorem pieces_nil : pieces [] = [] := rfl

theorem pieces_append_slash (text rest : List Char) :
    pieces (text ++ '/' :: rest) = pieces text ++ pieces rest := by
  rw [pieces, List.splitOnP_append_cons _ _ (by rfl), List.filter_append, List.map_append]
  rfl

theorem pieces_name (h : IsName name) : pieces name.toList = [.name name] := by
  have hSingle : name.toList.splitOnP (· == '/') = [name.toList] := by
    apply List.splitOnP_eq_singleton
    intro c hc
    rw [beq_eq_false_iff_ne]
    rintro rfl
    exact h.slash hc
  have hKeep : [name.toList].filter (fun piece => !piece.isEmpty) = [name.toList] := by
    simp [h.nonempty]
  rw [pieces, hSingle, hKeep, List.map_singleton, String.ofList_toList, h.ofText_eq]

/-- A part stands for what its text stands for, if its name does. -/
theorem pieces_text {part : PathPart} (h : ∀ name, part = .name name → IsName name) :
    pieces part.text.toList = [part] := by
  cases part with
  | current => rfl
  | up => rfl
  | name name => exact pieces_name (h name rfl)

theorem text_nonempty (part : PathPart) (h : ∀ name, part = .name name → IsName name) :
    part.text.toList ≠ [] ∧ '/' ∉ part.text.toList := by
  cases part with
  | current => decide
  | up => decide
  | name name => exact ⟨(h name rfl).nonempty, (h name rfl).slash⟩

/-- Parts are found again between the slashes that join their texts. -/
theorem pieces_parts {parts : List PathPart} (h : ∀ name, .name name ∈ parts → IsName name) :
    pieces ("/".intercalate (parts.map PathPart.text)).toList = parts := by
  rw [String.toList_intercalate, List.map_map]
  induction parts with
  | nil => rfl
  | cons part rest ih =>
      have hPart : pieces part.text.toList = [part] :=
        pieces_text fun name hName => h name (hName ▸ List.mem_cons_self)
      have hRest := ih fun name hName => h name (List.mem_cons_of_mem _ hName)
      cases rest with
      | nil => simpa using hPart
      | cons next rest =>
          have hText : "/".toList.intercalate
              ((part :: next :: rest).map (String.toList ∘ PathPart.text)) = part.text.toList ++
                '/' :: "/".toList.intercalate ((next :: rest).map (String.toList ∘ PathPart.text)) := by
            simp
          rw [hText, pieces_append_slash, hPart, hRest]
          rfl

theorem map_text_names (names : List String) :
    (names.map PathPart.name).map PathPart.text = names := by
  rw [List.map_map]
  exact List.map_id names

theorem isName_of_mem_names (h : ∀ name ∈ names, IsName name) :
    ∀ name, .name name ∈ names.map PathPart.name → IsName name := by
  intro name hName
  obtain ⟨_, hMem, hEq⟩ := List.mem_map.mp hName
  obtain rfl := PathPart.name.inj hEq
  exact h _ hMem

/-- A text of parts begins with the first of them, and so not with a slash. -/
theorem head?_intercalate_ne {parts : List PathPart}
    (h : ∀ name, .name name ∈ parts → IsName name) :
    ("/".intercalate (parts.map PathPart.text)).toList.head? ≠ some '/' := by
  cases parts with
  | nil => simp
  | cons part rest =>
      obtain ⟨hNonempty, hSlash⟩ :=
        text_nonempty part fun name hName => h name (hName ▸ List.mem_cons_self)
      have hHead : ("/".intercalate ((part :: rest).map PathPart.text)).toList.head? =
          part.text.toList.head? := by
        cases rest <;> simp [List.head?_append_of_ne_nil _ hNonempty]
      rw [hHead]
      exact fun hFirst => hSlash (List.mem_of_mem_head? hFirst)

/-- No piece has a separator in it. -/
theorem notMem_of_mem_splitOnP {text piece : List Char} {c : Char}
    (h : piece ∈ text.splitOnP (· == c)) : c ∉ piece := by
  induction text generalizing piece with
  | nil =>
      obtain rfl : piece = [] := by simpa using h
      simp
  | cons first text ih =>
      rw [List.splitOnP_cons_eq_if_modifyHead] at h
      split at h
      · rcases List.mem_cons.mp h with rfl | h
        · simp
        · exact ih h
      · rename_i hFirst
        cases hPieces : text.splitOnP (· == c) with
        | nil => exact absurd hPieces (List.splitOnP_ne_nil _ _)
        | cons head pieces =>
            rw [hPieces, List.modifyHead_cons] at h
            rw [hPieces, List.forall_mem_cons] at ih
            rcases List.mem_cons.mp h with rfl | h
            · rw [List.mem_cons, not_or]
              exact ⟨fun hEq => hFirst (by simp [hEq]), ih.1⟩
            · exact ih.2 piece h

/-- The names among the pieces of any text stand for themselves. -/
theorem isName_of_mem_pieces {text : List Char} (h : .name name ∈ pieces text) : IsName name := by
  obtain ⟨piece, hPiece, hName⟩ := List.mem_map.mp h
  obtain ⟨hPiece, hNonempty⟩ := List.mem_filter.mp hPiece
  unfold PathPart.ofText at hName
  split at hName
  · cases hName
  · split at hName
    · cases hName
    · rename_i hCurrent hUp
      obtain rfl := PathPart.name.inj hName
      refine ⟨by simpa using hNonempty, ?_, hCurrent, hUp⟩
      rw [String.toList_ofList]
      exact notMem_of_mem_splitOnP hPiece

end Pieces

section OfString

/-- What the pieces of a text make a path of. -/
def ofPieces (absolute : Bool) (pieces : List PathPart) : Path :=
  match absolute, pieces with
  | false, .current :: rest => ⟨false, .current :: rest.filter (· != .current)⟩
  | _, pieces => ⟨absolute, pieces.filter (· != .current)⟩

theorem ofString_eq (text : String) :
    ofString text = ofPieces (text.toList.head? == some '/') (pieces text.toList) := rfl

theorem absolute_ofString (text : String) :
    (ofString text).absolute = (text.toList.head? == some '/') := by
  rw [ofString_eq]
  generalize pieces text.toList = all
  unfold ofPieces
  split
  · rename_i hHead
    exact hHead.symm
  · rfl

theorem ofPieces_eq (absolute : Bool) {parts : List PathPart} (h : .current ∉ parts) :
    ofPieces absolute parts = ⟨absolute, parts⟩ := by
  have hKeep : parts.filter (· != .current) = parts := by
    rw [List.filter_eq_self]
    rintro part hPart
    rw [bne_iff_ne]
    rintro rfl
    exact h hPart
  unfold ofPieces
  split
  · exact absurd List.mem_cons_self h
  · rw [hKeep]

theorem ofPieces_append_name (absolute : Bool) (pieces : List PathPart) (name : String) :
    ofPieces absolute (pieces ++ [.name name]) = (ofPieces absolute pieces).push name := by
  cases absolute with
  | true => simp [ofPieces, push]
  | false =>
      cases pieces with
      | nil => rfl
      | cons part rest => cases part <;> simp [ofPieces, push]

/-- The names of a path that has no detours. -/
structure HasNames (path : Path) (names : List String) : Prop where
  parts : path.parts = names.map .name
  isName : ∀ name ∈ names, IsName name

/-- A path has no name but those that stand for themselves. -/
def IsPlain (path : Path) : Prop :=
  ∀ name, .name name ∈ path.parts → IsName name

theorem HasNames.isPlain (h : path.HasNames names) : path.IsPlain := by
  rw [IsPlain, h.parts]
  exact isName_of_mem_names h.isName

/-- A path in which the directory itself does not occur is the one that its text names. -/
theorem IsPlain.ofString_text (h : path.IsPlain) (hCurrent : .current ∉ path.parts) :
    ofString path.text = path := by
  obtain ⟨absolute, parts⟩ := path
  have hHead := head?_intercalate_ne h
  rw [ofString_eq, text]
  cases absolute with
  | false =>
      simp only [Bool.false_eq_true, if_false, String.empty_append, pieces_parts h,
        beq_eq_false_iff_ne.mpr hHead, ofPieces_eq _ hCurrent]
  | true =>
      have hText : ("/" ++ "/".intercalate (parts.map PathPart.text)).toList =
          '/' :: ("/".intercalate (parts.map PathPart.text)).toList := by simp
      have hPieces : pieces ('/' :: ("/".intercalate (parts.map PathPart.text)).toList) =
          parts := by
        rw [← List.nil_append ('/' :: _), pieces_append_slash, pieces_nil, pieces_parts h,
          List.nil_append]
      simp only [if_true, hText, hPieces, List.head?_cons, beq_self_eq_true,
        ofPieces_eq _ hCurrent]

/-- A path of names is the one that its text names. -/
theorem ofString_text (h : path.HasNames names) : ofString path.text = path := by
  apply h.isPlain.ofString_text
  simp [h.parts]

theorem toList_joinText (directory name : String) : ∃ between, between ⊆ ['/'] ∧
    (joinText directory name).toList = directory.toList ++ between ++ name.toList := by
  rw [joinText]
  split
  · exact ⟨[], List.nil_subset _, by simp⟩
  · exact ⟨['/'], List.Subset.refl _, by simp⟩

/-- Texts are joined at a slash, so that their pieces are put one after the other. -/
theorem pieces_joinText (directory text : String) :
    pieces (joinText directory text).toList = pieces directory.toList ++ pieces text.toList := by
  rw [joinText]
  split
  · rename_i hEnd
    rcases (by simpa using hEnd : directory = "" ∨ directory.toList.getLast? = some '/') with
      rfl | hLast
    · simp [pieces_nil]
    · obtain ⟨front, hFront⟩ := List.getLast?_eq_some_iff.mp hLast
      rw [String.toList_append, hFront, List.append_assoc, List.singleton_append,
        pieces_append_slash, pieces_append_slash, pieces_nil, List.append_nil]
  · rw [String.toList_append, String.toList_append, List.append_assoc]
    exact pieces_append_slash directory.toList text.toList

theorem head?_joinText (h : directory.toList ≠ []) (text : String) :
    (joinText directory text).toList.head? = directory.toList.head? := by
  rw [joinText]
  split <;> simp only [String.toList_append, List.append_assoc, List.head?_append_of_ne_nil _ h]

/-- A name behind the text of a directory is pushed on its path. -/
theorem ofString_joinText (directory : String) (h : IsName name) :
    ofString (joinText directory name) = (ofString directory).push name := by
  rw [ofString_eq, ofString_eq, ← ofPieces_append_name, pieces_joinText, pieces_name h]
  by_cases hEmpty : directory.toList = []
  · have hDirectory : directory = "" := String.toList_eq_nil_iff.mp hEmpty
    subst hDirectory
    have hHead : name.toList.head? ≠ some '/' := fun hSlash =>
      h.slash (List.mem_of_mem_head? hSlash)
    have hJoin : joinText "" name = name := by simp [joinText]
    rw [hJoin, beq_eq_false_iff_ne.mpr hHead]
    rfl
  · rw [head?_joinText hEmpty]

theorem isPlain_append {more : List PathPart} {absolute : Bool} {parts : List PathPart}
    (h : IsPlain ⟨absolute, parts⟩) (hMore : ∀ name, .name name ∈ more → IsName name) :
    IsPlain ⟨absolute, parts ++ more⟩ := by
  intro name hName
  rcases List.mem_append.mp hName with hFront | hBack
  · exact h name hFront
  · exact hMore name hBack

/-- The text of a path and one more name is joined like any text and a name. -/
theorem text_push (h : path.IsPlain) (name : String) :
    (path.push name).text = joinText path.text name := by
  obtain ⟨absolute, parts⟩ := path
  obtain rfl | ⟨front, last, rfl⟩ := List.eq_nil_or_concat parts
  · cases absolute <;> simp [push, text, joinText, PathPart.text]
  · rw [List.concat_eq_append] at h ⊢
    obtain ⟨hNonempty, hSlash⟩ := text_nonempty last fun name hName =>
      h name (hName ▸ List.mem_append_right _ List.mem_cons_self)
    -- The text of the path ends with that of its last part, and so not with a slash.
    obtain ⟨before, hBefore⟩ : ∃ before,
        text ⟨absolute, front ++ [last]⟩ = before ++ last.text := by
      rw [text, List.map_append, List.map_singleton]
      by_cases hFront : front.map PathPart.text = []
      · rw [hFront]
        exact ⟨if absolute then "/" else "", by simp⟩
      · rw [String.intercalate_append_of_ne_nil hFront (List.cons_ne_nil _ _),
          String.intercalate_singleton, ← String.append_assoc]
        exact ⟨_, rfl⟩
    have hEmpty : (text ⟨absolute, front ++ [last]⟩).isEmpty = false := by
      rw [← Bool.not_eq_true, String.isEmpty_iff, ← String.toList_eq_nil_iff, hBefore,
        String.toList_append]
      exact List.append_ne_nil_of_right_ne_nil _ hNonempty
    have hEnd : (text ⟨absolute, front ++ [last]⟩).toList.getLast? ≠ some '/' := by
      rw [hBefore, String.toList_append, List.getLast?_append_of_ne_nil _ hNonempty]
      exact fun hLast => hSlash (List.mem_of_getLast? hLast)
    rw [joinText, if_neg (by simp [hEmpty, hEnd]), push, text, text]
    simp only
    rw [List.map_append, String.intercalate_append_of_ne_nil (by simp) (by simp),
      ← String.append_assoc, ← String.append_assoc]
    rfl

theorem isPlain_ofString (text : String) : (ofString text).IsPlain := by
  intro name hName
  have hPiece : .name name ∈ pieces text.toList := by
    rw [ofString_eq] at hName
    generalize pieces text.toList = all at hName ⊢
    unfold ofPieces at hName
    split at hName
    · rcases List.mem_cons.mp hName with hFirst | hRest
      · cases hFirst
      · exact List.mem_cons_of_mem _ (List.mem_filter.mp hRest).1
    · exact (List.mem_filter.mp hName).1
  exact isName_of_mem_pieces hPiece

end OfString

section Join

theorem absolute_join {base : Path} (hBase : base.absolute = true) :
    (base.join path).absolute = true := by
  rw [join]
  split
  · assumption
  · exact hBase

theorem isPlain_join {base : Path} (hBase : base.IsPlain) (h : path.IsPlain) :
    (base.join path).IsPlain := by
  rw [join]
  split
  · exact h
  · intro name hName
    rcases List.mem_append.mp hName with hName | hName
    · exact hBase name hName
    · exact h name (List.mem_filter.mp hName).1

theorem HasNames.push (h : path.HasNames names) (hName : IsName name) :
    (path.push name).HasNames (names ++ [name]) := by
  refine ⟨?_, ?_⟩
  · change path.parts ++ [.name name] = _
    rw [h.parts, List.map_append]
    rfl
  · simp only [List.forall_mem_append, List.forall_mem_singleton]
    exact ⟨h.isName, hName⟩

theorem HasNames.parent? {parent : Path} (h : path.HasNames names) (hParent : path.parent? = some parent) :
    parent.HasNames names.dropLast := by
  rw [Path.parent?] at hParent
  split at hParent
  · cases hParent
  · obtain rfl := Option.some.inj hParent
    refine ⟨?_, fun name hName => h.isName name ((List.dropLast_sublist _).subset hName)⟩
    simp only [h.parts, List.map_dropLast]

end Join

section Relative

variable {root other : Path}

theorem toList_intercalate_root (texts : List String) :
    ∃ rest, ("/".intercalate ("/" :: texts)).toList = '/' :: rest ∧
      pieces ('/' :: rest) = pieces ("/".intercalate texts).toList := by
  cases texts with
  | nil => exact ⟨[], by simp, rfl⟩
  | cons text texts =>
      refine ⟨'/' :: ("/".intercalate (text :: texts)).toList, by simp, ?_⟩
      rw [← List.nil_append ('/' :: _), pieces_append_slash, ← List.nil_append ('/' :: _),
        pieces_append_slash]
      rfl

/-- The text of a path in full, in which the root is a piece like the others. -/
theorem pieces_texts (h : path.IsPlain) :
    pieces ("/".intercalate path.texts).toList = path.parts := by
  rw [texts]
  split
  · obtain ⟨rest, hText, hPieces⟩ := toList_intercalate_root (path.parts.map PathPart.text)
    rw [List.singleton_append, hText, hPieces, pieces_parts h]
  · rw [List.nil_append, pieces_parts h]

/-- Whether a path lies below a root. -/
theorem stripBase?_eq_some_iff {parts : List PathPart} : stripBase? root path = some parts ↔
    root.absolute = path.absolute ∧ path.parts = root.parts ++ parts := by
  rw [stripBase?]
  constructor
  · intro h
    split at h
    · rename_i hBase
      obtain ⟨rest, hRest⟩ := List.isPrefixOf_iff_prefix.mp hBase.2
      obtain rfl := Option.some.inj h
      rw [← hRest, List.drop_left]
      exact ⟨hBase.1, rfl⟩
    · cases h
  · rintro ⟨hAbsolute, hParts⟩
    have hPrefix : root.parts.isPrefixOf path.parts = true :=
      List.isPrefixOf_iff_prefix.mpr (hParts ▸ List.prefix_append ..)
    rw [if_pos ⟨hAbsolute, hPrefix⟩, hParts, List.drop_left]

/-- Below the root a path goes on with what its text says, which begins with a name. -/
theorem relativeText_below {parts : List PathPart} (h : path.IsPlain)
    (hStrip : stripBase? root path = some parts) :
    path.parts = root.parts ++ pieces (relativeText root path).toList ∧
      (relativeText root path).toList.head? ≠ some '/' := by
  obtain ⟨-, hParts⟩ := stripBase?_eq_some_iff.mp hStrip
  have hNames : ∀ name, .name name ∈ parts → IsName name := fun name hName =>
    h name (hParts ▸ List.mem_append_right _ hName)
  rw [relativeText, hStrip]
  exact ⟨by rw [pieces_parts hNames, hParts], head?_intercalate_ne hNames⟩

/-- Elsewhere a path has all its parts in the text, behind a slash if it is absolute. -/
theorem relativeText_elsewhere (h : path.IsPlain) (hStrip : stripBase? root path = none) :
    path.parts = pieces (relativeText root path).toList ∧
      (path.absolute = true → (relativeText root path).toList.head? = some '/') := by
  rw [relativeText, hStrip]
  refine ⟨(pieces_texts h).symm, fun hAbsolute => ?_⟩
  obtain ⟨_, hText, -⟩ := toList_intercalate_root (path.parts.map PathPart.text)
  simp only [texts, hAbsolute, if_true, List.singleton_append, hText, List.head?_cons]

/-- Absolute paths, and paths that lie on the same side of the root, are called differently. -/
theorem relativeText_injective (h : path.IsPlain) (hOther : other.IsPlain)
    (hAbsolute : path.absolute = other.absolute)
    (hSide : path.absolute = true ∨
      ((stripBase? root path).isSome ↔ (stripBase? root other).isSome))
    (hText : relativeText root path = relativeText root other) : path = other := by
  have hParts : path.parts = other.parts := by
    cases hStrip : stripBase? root path with
    | none =>
        obtain ⟨hPath, hSlash⟩ := relativeText_elsewhere h hStrip
        cases hStrip' : stripBase? root other with
        | none => rw [hPath, (relativeText_elsewhere hOther hStrip').1, hText]
        | some parts' =>
            have hTrue : path.absolute = true := by simpa [hStrip, hStrip'] using hSide
            have hName := (relativeText_below hOther hStrip').2
            exact absurd (hText ▸ hSlash hTrue) hName
    | some parts =>
        obtain ⟨hPath, hName⟩ := relativeText_below h hStrip
        cases hStrip' : stripBase? root other with
        | none =>
            have hTrue : path.absolute = true := by simpa [hStrip, hStrip'] using hSide
            have hSlash := (relativeText_elsewhere hOther hStrip').2
            exact absurd (hText ▸ hSlash (hAbsolute ▸ hTrue)) hName
        | some parts' => rw [hPath, (relativeText_below hOther hStrip').1, hText]
  cases path
  cases other
  simp_all

/-- A path below a relative root goes on there as another one does from the start. -/
structure Shadows (root path other : Path) : Prop where
  relative : root.absolute = false ∧ path.absolute = false ∧ other.absolute = false
  behind : path.parts = root.parts ++ other.parts

/-- Paths with one text are one, except where the rest of one of them below a relative root is the
other. -/
theorem eq_or_shadows_of_relativeText (h : path.IsPlain) (hOther : other.IsPlain)
    (hAbsolute : path.absolute = other.absolute)
    (hText : relativeText root path = relativeText root other) :
    path = other ∨ Shadows root path other ∨ Shadows root other path := by
  by_cases hSide : path.absolute = true ∨
      ((stripBase? root path).isSome ↔ (stripBase? root other).isSome)
  · exact .inl (relativeText_injective h hOther hAbsolute hSide hText)
  rw [not_or, Bool.not_eq_true] at hSide
  obtain ⟨hRelative, hSide⟩ := hSide
  have hRelative' : other.absolute = false := hAbsolute ▸ hRelative
  cases hStrip : stripBase? root path with
  | some parts =>
      have hElsewhere : stripBase? root other = none := by simpa [hStrip] using hSide
      have hRoot := (stripBase?_eq_some_iff.mp hStrip).1
      refine .inr (.inl ⟨⟨hRoot.trans hRelative, hRelative, hRelative'⟩, ?_⟩)
      rw [(relativeText_below h hStrip).1, hText, ← (relativeText_elsewhere hOther hElsewhere).1]
  | none =>
      obtain ⟨parts, hBelow⟩ : ∃ parts, stripBase? root other = some parts := by
        simpa [hStrip, Option.isSome_iff_exists] using hSide
      have hRoot := (stripBase?_eq_some_iff.mp hBelow).1
      refine .inr (.inr ⟨⟨hRoot.trans hRelative', hRelative', hRelative⟩, ?_⟩)
      rw [(relativeText_below hOther hBelow).1, ← hText, ← (relativeText_elsewhere h hStrip).1]

end Relative

end Path

end DatasetAudit
