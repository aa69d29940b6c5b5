/-!
Columns of text: a text filled up with spaces to a width. A text that is wider stays as it is.
-/

namespace DatasetAudit.Text

/-- The spaces that a text lacks to a width. -/
def filler (width : Nat) (text : String) : String :=
  String.ofList (List.replicate (width - text.length) ' ')

/-- A text at the left of its column. -/
def alignLeft (width : Nat) (text : String) : String :=
  text ++ filler width text

/-- A text at the right of its column. -/
def alignRight (width : Nat) (text : String) : String :=
  filler width text ++ text

/-- Lines as a text, each with a line feed behind it. -/
def ofLines (lines : List String) : String :=
  String.join (lines.map (· ++ "\n"))

end DatasetAudit.Text
