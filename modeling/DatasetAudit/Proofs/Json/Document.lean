import DatasetAudit.Proofs.Json.Number
import DatasetAudit.Proofs.Json.String

/-! A written document reads back member for member and number for number. Only a float that is not
finite, and a number of more than sixty-four bits, comes back as something else. -/

namespace DatasetAudit

namespace Json

mutual

/-- Whether every part of a value has a text of its own: integers fit into sixty-four bits, signed
or unsigned, and floats are finite. -/
def Readable : Json → Prop
  | .integer n => -2 ^ 63 ≤ n ∧ n < 2 ^ 64
  | .float x => x.isFinite = true
  | .array items => ItemsReadable items
  | .object members => MembersReadable members
  | .valueless => False
  | _ => True

/-- Whether every item is readable. -/
def ItemsReadable : List Json → Prop
  | [] => True
  | item :: rest => item.Readable ∧ ItemsReadable rest

/-- Whether every member is readable. -/
def MembersReadable : List (String × Json) → Prop
  | [] => True
  | (_, value) :: rest => value.Readable ∧ MembersReadable rest

end

mutual

/-- What a value is read back as. A float that is not finite has lost its value, and an integer of
more than sixty-four bits has become a float. -/
def echo : Json → Json
  | .integer n => ofWhole (n < 0) n.natAbs
  | .float x => ofFloat x
  | .array items => .array (echoItems items)
  | .object members => .object (echoMembers members)
  | .valueless => .null
  | value => value

/-- What items are read back as. -/
def echoItems : List Json → List Json
  | [] => []
  | item :: rest => item.echo :: echoItems rest

/-- What members are read back as. -/
def echoMembers : List (String × Json) → List (String × Json)
  | [] => []
  | (name, value) :: rest => (name, value.echo) :: echoMembers rest

end

variable {value item : Json} {items : List Json} {members : List (String × Json)}
  {level outer steps : Nat} {text rest : List Char} {name : String}

theorem itemsReadable_iff : ItemsReadable items ↔ ∀ item ∈ items, item.Readable := by
  induction items with
  | nil => simp [ItemsReadable]
  | cons _ _ ih => simp [ItemsReadable, ih]

theorem membersReadable_iff : MembersReadable members ↔ ∀ member ∈ members, member.2.Readable := by
  induction members with
  | nil => simp [MembersReadable]
  | cons _ _ ih => simp [MembersReadable, ih]

theorem echoItems_eq_map (items : List Json) : echoItems items = items.map echo := by
  induction items with
  | nil => rfl
  | cons _ _ ih => rw [echoItems, ih, List.map_cons]

theorem echoMembers_eq_map (members : List (String × Json)) :
    echoMembers members = members.map fun member => (member.1, member.2.echo) := by
  induction members with
  | nil => rfl
  | cons _ _ ih => rw [echoMembers, ih, List.map_cons]

mutual

/-- What has a text of its own comes back. -/
theorem echo_eq_self : ∀ {value : Json}, value.Readable → value.echo = value
  | .null, _ | .bool _, _ | .string _, _ => rfl
  | .integer _, h => ofWhole_eq_integer h.1 h.2
  | .float _, h => if_pos h
  | .array _, h => congrArg Json.array (echoItems_eq_self h)
  | .object _, h => congrArg Json.object (echoMembers_eq_self h)

theorem echoItems_eq_self : ∀ {items : List Json}, ItemsReadable items → echoItems items = items
  | [], _ => rfl
  | _ :: _, h => congrArg₂ List.cons (echo_eq_self h.1) (echoItems_eq_self h.2)

theorem echoMembers_eq_self :
    ∀ {members : List (String × Json)}, MembersReadable members → echoMembers members = members
  | [], _ => rfl
  | (name, _) :: _, h =>
      congrArg₂ List.cons (congrArg (name, ·) (echo_eq_self h.1)) (echoMembers_eq_self h.2)

end

section Blanks

theorem skipSpace_skipSpace (text : List Char) : skipSpace (skipSpace text) = skipSpace text := by
  unfold skipSpace
  induction text with
  | nil => rfl
  | cons c text ih =>
      by_cases hSpace : isSpace c = true
      · simpa [List.dropWhile_cons, hSpace] using ih
      · simp [hSpace]

theorem skipSpace_newLine_append (level : Nat) (text : List Char) :
    skipSpace (newLine level ++ text) = skipSpace text := by
  have hSpaces : ∀ c ∈ newLine level, isSpace c = true := by
    intro c hc
    rcases List.mem_cons.mp hc with rfl | hc
    · rfl
    · rw [List.eq_of_mem_replicate hc]
      rfl
  exact List.dropWhile_append_of_pos hSpaces

theorem skipSpace_cons {c : Char} (h : isSpace c = false) (text : List Char) :
    skipSpace (c :: text) = c :: text := by
  simp [skipSpace, h]

/-- The readers pass over the same blanks wherever these have been passed over before. -/
theorem readValue?_skipSpace (steps : Nat) (text : List Char) :
    readValue? steps (skipSpace text) = readValue? steps text := by
  cases steps with
  | zero => rfl
  | succ steps =>
      rw [readValue?, readValue?, skipSpace_skipSpace]

theorem readItems?_skipSpace (steps : Nat) (text : List Char) :
    readItems? steps (skipSpace text) = readItems? steps text := by
  cases steps with
  | zero => rfl
  | succ steps =>
      rw [readItems?, readItems?, readValue?_skipSpace]

theorem readMembers?_skipSpace (steps : Nat) (text : List Char) :
    readMembers? steps (skipSpace text) = readMembers? steps text := by
  cases steps with
  | zero => rfl
  | succ steps =>
      rw [readMembers?, readMembers?, skipSpace_skipSpace]

theorem readValue?_blank (steps : Nat) (text : List Char) :
    readValue? steps (' ' :: text) = readValue? steps text := by
  rw [← readValue?_skipSpace, ← readValue?_skipSpace steps text]
  rfl

theorem readItems?_newLine (steps level : Nat) (text : List Char) :
    readItems? steps (newLine level ++ text) = readItems? steps text := by
  rw [← readItems?_skipSpace, skipSpace_newLine_append, readItems?_skipSpace]

theorem readMembers?_newLine (steps level : Nat) (text : List Char) :
    readMembers? steps (newLine level ++ text) = readMembers? steps text := by
  rw [← readMembers?_skipSpace, skipSpace_newLine_append, readMembers?_skipSpace]

end Blanks

section Steps

/-- A number is none of the values that begin with another character. -/
theorem readValue?_numberText (h : NumberText text value) (hRest : Ends rest) :
    readValue? (steps + 1) (text ++ rest) = some (value, rest) := by
  obtain ⟨negative, digits, rfl, ⟨c, hHead, hDigit⟩, hReads⟩ := h
  have hReads := hReads rest hRest
  cases negative with
  | true => exact hReads
  | false =>
      cases digits with
      | nil => cases hHead
      | cons first others =>
          obtain rfl : first = c := by simpa using hHead
          have hSpace : isSpace first = false := by
            by_contra hSpace
            simp only [isSpace, Bool.not_eq_false, Bool.or_eq_true, beq_iff_eq] at hSpace
            rcases hSpace with ((rfl | rfl) | rfl) | rfl <;> cases hDigit
          change readValue? (steps + 1) (first :: (others ++ rest)) = _
          rw [readValue?, skipSpace_cons hSpace]
          split
          case h_8 => exact hReads
          all_goals
            rename_i hEq
            obtain ⟨rfl, -⟩ := List.cons.inj hEq
            cases hDigit

theorem readValue?_writeString (s : String) :
    readValue? (steps + 1) (writeString s ++ rest) = some (.string s, rest) := by
  rw [writeString, List.append_assoc, List.cons_append, readValue?, skipSpace_cons rfl]
  simp only [List.singleton_append, stringTail?_write, Option.map_some, Option.elim_some]

/-- A closing bracket begins no value. -/
theorem readValue?_close (steps : Nat) (text : List Char) :
    readValue? steps (']' :: text) = none := by
  cases steps <;> rfl

theorem readValue?_bracket (hText : ∀ other, skipSpace text ≠ ']' :: other) :
    readValue? (steps + 1) ('[' :: text) =
      (readItems? steps text).map fun (items, rest) => (.array items, rest) := by
  rw [readValue?, skipSpace_cons rfl]
  simp only
  rw [readItems?_skipSpace]

theorem readValue?_brace (hText : ∀ other, skipSpace text ≠ '}' :: other) :
    readValue? (steps + 1) ('{' :: text) =
      (readMembers? steps text).map fun (members, rest) => (ofMembers members, rest) := by
  rw [readValue?, skipSpace_cons rfl]
  simp only
  rw [readMembers?_skipSpace]

/-- The last item is followed by the line of the closing bracket. -/
theorem readItems?_last (h : readValue? steps text = some (item, newLine outer ++ ']' :: rest)) :
    readItems? (steps + 1) text = some ([item], rest) := by
  simp only [readItems?, h, Option.bind_eq_bind, Option.bind_some, skipSpace_newLine_append,
    skipSpace_cons (c := ']') rfl]

/-- An item followed by a comma is followed by more items. -/
theorem readItems?_more {more : List Char} (h : readValue? steps text = some (item, ',' :: more))
    (hMore : readItems? steps more = some (items, rest)) :
    readItems? (steps + 1) text = some (item :: items, rest) := by
  simp only [readItems?, h, Option.bind_eq_bind, Option.bind_some, skipSpace_cons (c := ',') rfl,
    hMore]

/-- The last member is followed by the line of the closing brace. -/
theorem readMembers?_last (h : readValue? steps text = some (value, newLine outer ++ '}' :: rest)) :
    readMembers? (steps + 1) (writeString name ++ ':' :: ' ' :: text) =
      some ([(some name, value)], rest) := by
  rw [readMembers?, writeString, List.append_assoc, List.cons_append, skipSpace_cons rfl]
  simp only [List.singleton_append, stringTail?_write, Option.bind_eq_bind, Option.bind_some,
    skipSpace_cons (c := ':') rfl, readValue?_blank, h, skipSpace_newLine_append,
    skipSpace_cons (c := '}') rfl]

/-- A member followed by a comma is followed by more members. -/
theorem readMembers?_more {more : List Char} {named : List (Option String × Json)}
    (h : readValue? steps text = some (value, ',' :: more))
    (hMore : readMembers? steps more = some (named, rest)) :
    readMembers? (steps + 1) (writeString name ++ ':' :: ' ' :: text) =
      some ((some name, value) :: named, rest) := by
  rw [readMembers?, writeString, List.append_assoc, List.cons_append, skipSpace_cons rfl]
  simp only [List.singleton_append, stringTail?_write, Option.bind_eq_bind, Option.bind_some,
    skipSpace_cons (c := ':') rfl, readValue?_blank, h, skipSpace_cons (c := ',') rfl, hMore]

theorem ofMembers_map_some (members : List (String × Json)) :
    ofMembers (members.map fun member => (some member.1, member.2)) = .object members := by
  have hAll : (members.map fun member => (some member.1, member.2)).mapM
      (fun named => named.1.map (·, named.2)) = some members := by
    induction members with
    | nil => rfl
    | cons member members ih => simp [ih]
  rw [ofMembers]
  split
  · rename_i hRead
    obtain rfl := Option.some.inj (hAll.symm.trans hRead)
    rfl
  · rename_i hRead
    cases hAll.symm.trans hRead

/-- An array is read between its brackets, which stand on lines of their own. -/
theorem readValue?_array {first more : List Char}
    (h : readItems? steps (first ++ (more ++ (newLine level ++ ']' :: rest))) = some (items, rest)) :
    readValue? (steps + 1)
      ('[' :: newLine outer ++ first ++ more ++ newLine level ++ [']'] ++ rest) =
        some (.array items, rest) := by
  have hText : '[' :: newLine outer ++ first ++ more ++ newLine level ++ [']'] ++ rest =
      '[' :: (newLine outer ++ (first ++ (more ++ (newLine level ++ ']' :: rest)))) := by
    simp
  rw [hText, readValue?_bracket, readItems?_newLine, h, Option.map_some]
  -- A text that begins with the closing bracket holds no item.
  intro other hClose
  rw [skipSpace_newLine_append] at hClose
  rw [← readItems?_skipSpace, hClose] at h
  cases steps with
  | zero => cases h
  | succ steps => simp [readItems?, readValue?_close] at h

/-- An object is read between its braces, which stand on lines of their own. -/
theorem readValue?_object {first more : List Char}
    (h : readMembers? steps (writeString name ++ ':' :: ' ' :: (first ++
      (more ++ (newLine level ++ '}' :: rest)))) =
        some (members.map fun member => (some member.1, member.2), rest)) :
    readValue? (steps + 1)
      ('{' :: newLine outer ++ writeString name ++ ':' :: ' ' :: first ++ more ++ newLine level ++
        ['}'] ++ rest) = some (.object members, rest) := by
  have hText : '{' :: newLine outer ++ writeString name ++ ':' :: ' ' :: first ++ more ++
      newLine level ++ ['}'] ++ rest =
        '{' :: (newLine outer ++ (writeString name ++ ':' :: ' ' :: (first ++
          (more ++ (newLine level ++ '}' :: rest))))) := by
    simp
  rw [hText, readValue?_brace, readMembers?_newLine, h, Option.map_some]
  · simp only [ofMembers_map_some]
  · intro other hClose
    rw [skipSpace_newLine_append, writeString, List.append_assoc, List.cons_append,
      skipSpace_cons rfl] at hClose
    cases hClose

end Steps

theorem ends_newLine (level : Nat) (rest : List Char) : Ends (newLine level ++ rest) :=
  ends_cons (.inr rfl) _

/-- An infinity or a NaN is read as no value, every other float as itself. -/
theorem readValue?_writeFloat (x : Float) (hRest : Ends rest) :
    readValue? (steps + 1) (writeFloat x ++ rest) = some (ofFloat x, rest) := by
  cases h : x.isFinite with
  | true =>
      rw [ofFloat, if_pos h]
      exact readValue?_numberText (numberText_writeFloat h) hRest
  | false =>
      rw [ofFloat, h, writeFloat_eq_null h]
      rfl

-- The induction is on the steps of the readers: each takes one before it calls another, and the
-- characters written between two calls are more than the steps taken.
mutual

/-- A written value reads back, whatever ends it. -/
theorem readValue?_write : ∀ (value : Json) (level steps : Nat) (rest : List Char),
    (value.write level).length < steps → Ends rest →
      readValue? steps (value.write level ++ rest) = some (value.echo, rest)
  | .null, _, steps + 1, _, _, _ => rfl
  | .bool true, _, steps + 1, _, _, _ => rfl
  | .bool false, _, steps + 1, _, _, _ => rfl
  | .integer n, _, steps + 1, rest, _, hRest =>
      readValue?_numberText (numberText_writeInteger n) hRest
  | .float x, _, steps + 1, rest, _, hRest => readValue?_writeFloat x hRest
  | .string s, _, steps + 1, rest, _, _ => readValue?_writeString s
  | .valueless, _, steps + 1, _, _, _ => rfl
  | .array [], _, steps + 1, _, _, _ => rfl
  | .object [], _, steps + 1, _, _, _ => rfl
  | .array (item :: items), level, steps + 1, rest, hSteps, _ => by
      have hLength :
          (item.write (level + 1) ++ writeItems (level + 1) items).length + 1 < steps := by
        simp only [write, newLine, List.length_append, List.length_cons] at hSteps ⊢
        omega
      rw [write]
      exact readValue?_array
        (readItems?_writeItems item items (level + 1) steps level rest hLength)
  | .object ((name, value) :: members), level, steps + 1, rest, hSteps, _ => by
      have hLength : (writeString name ++ ':' :: ' ' :: value.write (level + 1) ++
          writeMembers (level + 1) members).length + 1 < steps := by
        simp only [write, newLine, List.length_append, List.length_cons] at hSteps ⊢
        omega
      rw [write]
      exact readValue?_object
        (readMembers?_writeMembers name value members (level + 1) steps level rest hLength)
  termination_by structural _ _ steps => steps

/-- The written items of an array read back. -/
theorem readItems?_writeItems : ∀ (item : Json) (items : List Json) (level steps outer : Nat)
    (rest : List Char), (item.write level ++ writeItems level items).length + 1 < steps →
      readItems? steps (item.write level ++
        (writeItems level items ++ (newLine outer ++ ']' :: rest))) =
          some (echoItems (item :: items), rest)
  | item, [], level, steps + 1, outer, rest, hSteps => by
      simp only [List.length_append] at hSteps
      exact readItems?_last
        (readValue?_write item level steps _ (by omega) (ends_newLine _ _))
  | item, next :: items, level, steps + 1, outer, rest, hSteps => by
      simp only [writeItems, newLine, List.length_append, List.length_cons] at hSteps
      have hText : writeItems level (next :: items) ++ (newLine outer ++ ']' :: rest) =
          ',' :: (newLine level ++ (next.write level ++
            (writeItems level items ++ (newLine outer ++ ']' :: rest)))) := by
        simp [writeItems]
      rw [hText]
      apply readItems?_more
        (readValue?_write item level steps _ (by omega) (ends_cons (.inl rfl) _))
      rw [readItems?_newLine]
      apply readItems?_writeItems next items level steps outer rest
      rw [List.length_append]
      omega
  termination_by structural _ _ _ steps => steps

/-- The written members of an object read back. -/
theorem readMembers?_writeMembers : ∀ (name : String) (value : Json)
    (members : List (String × Json)) (level steps outer : Nat) (rest : List Char),
      (writeString name ++ ':' :: ' ' :: value.write level ++
        writeMembers level members).length + 1 < steps →
          readMembers? steps (writeString name ++ ':' :: ' ' :: (value.write level ++
            (writeMembers level members ++ (newLine outer ++ '}' :: rest)))) =
              some ((echoMembers ((name, value) :: members)).map
                fun member => (some member.1, member.2), rest)
  | name, value, [], level, steps + 1, outer, rest, hSteps => by
      simp only [List.length_append, List.length_cons] at hSteps
      exact readMembers?_last
        (readValue?_write value level steps _ (by omega) (ends_newLine _ _))
  | name, value, (next, other) :: members, level, steps + 1, outer, rest, hSteps => by
      simp only [writeMembers, newLine, List.length_append, List.length_cons] at hSteps
      have hText : writeMembers level ((next, other) :: members) ++ (newLine outer ++ '}' :: rest) =
          ',' :: (newLine level ++ (writeString next ++ ':' :: ' ' :: (other.write level ++
            (writeMembers level members ++ (newLine outer ++ '}' :: rest))))) := by
        simp [writeMembers]
      rw [hText]
      apply readMembers?_more
        (readValue?_write value level steps _ (by omega) (ends_cons (.inl rfl) _))
      rw [readMembers?_newLine]
      apply readMembers?_writeMembers next other members level steps outer rest
      simp only [List.length_append, List.length_cons]
      omega
  termination_by structural _ _ _ _ steps => steps

end

/-- A document reads back as its value's echo. -/
theorem parse?_document_eq_echo (value : Json) : parse? value.document = some value.echo := by
  have hRead := readValue?_write value 0 (2 * (value.write 0 ++ ['\n']).length + 2) ['\n']
    (by rw [List.length_append]; omega) (ends_cons (.inr rfl) [])
  have hBlank : skipSpace ['\n'] = [] := rfl
  simp only [parse?, document, String.toList_ofList, hRead, hBlank, List.isEmpty_nil, if_true]

/-- A document reads back as the value it was written from. -/
theorem parse?_document (h : value.Readable) : parse? value.document = some value := by
  rw [parse?_document_eq_echo, echo_eq_self h]

end Json

end DatasetAudit
