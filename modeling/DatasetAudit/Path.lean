/-!
Paths as text, without a look at any file: their parts, their normal form, joining, what a path is
called relative to another, and what its name says.
-/

namespace DatasetAudit

/-- One part of a path: the directory itself, the directory above, or a name. -/
inductive PathPart where
  | current
  | up
  | name (text : String)
deriving DecidableEq, Repr

namespace PathPart

/-- How a part is written. -/
def text : PathPart → String
  | .current => "."
  | .up => ".."
  | .name text => text

/-- The position of a kind of part in the order. -/
def rank : PathPart → Nat
  | .current => 0
  | .up => 1
  | .name _ => 2

/-- Names are ordered by their text, after the other parts. -/
instance : Ord PathPart := ⟨compareLex (compareOn rank) (compareOn text)⟩

instance : Std.TransOrd PathPart :=
  inferInstanceAs (Std.TransCmp (compareLex (compareOn rank) (compareOn text)))

instance : Std.LawfulEqOrd PathPart where
  eq_of_compare {a b} h := by
    have h : (compareLex (compareOn rank) (compareOn text)) a b = .eq := h
    obtain ⟨hr, ht⟩ := Ordering.then_eq_eq.mp h
    cases a <;> cases b <;> simp_all [compareOn, rank, text]

/-- The part that a piece between slashes stands for. -/
def ofText (text : String) : PathPart :=
  if text = "." then .current else if text = ".." then .up else .name text

end PathPart

/-- A path: where it starts and the parts that follow. -/
structure Path where
  absolute : Bool
  parts : List PathPart
deriving DecidableEq, Repr

namespace Path

/-- The path that a text names. Empty pieces between slashes are passed over, and so are pieces
that name the directory itself, but for one at the front of a relative path. -/
def ofString (text : String) : Path :=
  let absolute := text.toList.head? == some '/'
  let pieces := ((text.toList.splitOnP (· == '/')).filter fun piece => !piece.isEmpty).map
    fun piece => PathPart.ofText (String.ofList piece)
  match absolute, pieces with
  | false, .current :: rest => ⟨false, .current :: rest.filter (· != .current)⟩
  | _, pieces => ⟨absolute, pieces.filter (· != .current)⟩

/-- The parts as texts, the root of an absolute path in front. -/
def texts (path : Path) : List String :=
  (if path.absolute then ["/"] else []) ++ path.parts.map PathPart.text

/-- The path as text. -/
def text (path : Path) : String :=
  (if path.absolute then "/" else "") ++ "/".intercalate (path.parts.map PathPart.text)

/-- A path below another. An absolute path stays as it is. -/
def join (base path : Path) : Path :=
  if path.absolute then path
  else ⟨base.absolute, base.parts ++ path.parts.filter (· != .current)⟩

/-- A path and one more name. -/
def push (base : Path) (name : String) : Path :=
  ⟨base.absolute, base.parts ++ [.name name]⟩

/-- The path without its last part; none if it has no part. -/
def parent? (path : Path) : Option Path :=
  if path.parts.isEmpty then none else some ⟨path.absolute, path.parts.dropLast⟩

/-- Puts one more part on a normal path, whose parts are given with the last one first. The
directory above cancels a name, has no effect at the root, and otherwise stays. -/
def normalStep (absolute : Bool) (stack : List PathPart) : PathPart → List PathPart
  | .current => stack
  | .name text => .name text :: stack
  | .up =>
    match stack with
    | .name _ :: rest => rest
    | [] => if absolute then [] else [.up]
    | stack => .up :: stack

/-- The parts that are left when the parts of a path are put on one after the other. -/
def normalParts (path : Path) : List PathPart :=
  (path.parts.foldl (normalStep path.absolute) []).reverse

/-- The normal form: without detours, and `.` if nothing else is left of a relative path. -/
def normalize (path : Path) : Path :=
  match path.absolute, path.normalParts with
  | false, [] => ⟨false, [.current]⟩
  | absolute, parts => ⟨absolute, parts⟩

/-- The parts of a path behind those of another, if it begins with them. -/
def stripBase? (base path : Path) : Option (List PathPart) :=
  if base.absolute = path.absolute ∧ base.parts.isPrefixOf path.parts then
    some (path.parts.drop base.parts.length)
  else none

/-- What a path is called relative to a root. A path elsewhere is named in full, its root being a
piece like the others. -/
def relativeText (root path : Path) : String :=
  match stripBase? root path with
  | some parts => "/".intercalate (parts.map PathPart.text)
  | none => "/".intercalate path.texts

/-- A name split at its last dot: what stands before it, and what after it if there is a dot
other than at the front. -/
def splitName (name : String) : String × Option String :=
  let reversed := name.toList.reverse
  let extension := reversed.takeWhile (· != '.')
  let stem := (reversed.dropWhile (· != '.')).drop 1
  if stem.isEmpty then (name, none)
  else (String.ofList stem.reverse, some (String.ofList extension.reverse))

/-- The extension of a name, without its dot. -/
def extension? (name : String) : Option String :=
  (splitName name).2

/-- The parts of a path whose last name has lost its extension. Where one or two dots are left of
the name, they lead to the directory above. -/
def withoutExtension (parts : List PathPart) : List PathPart :=
  match parts.getLast? with
  | some (.name name) =>
    let stem := (splitName name).1
    parts.dropLast ++ [if stem = "." || stem = ".." then .up else .name stem]
  | _ => parts

/-- A text for a path below a directory given as text. -/
def joinText (directory name : String) : String :=
  if directory.isEmpty || directory.toList.getLast? == some '/' then directory ++ name
  else directory ++ "/" ++ name

end Path

end DatasetAudit
