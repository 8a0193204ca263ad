import RemoteTable.Datum
import RemoteTable.Error

/-!
# Result sets

The rows that a read of fields returns. Columns are known by the names that were asked for and by
their wire names. Every row has one cell for each column, which `ResultSet.ofRows` checks once and
the type keeps.
-/

namespace RemoteTable

/-- Rows of cells under named columns. -/
structure ResultSet where
  /-- The names that were asked for. -/
  columns : List String
  /-- The wire names of the columns. -/
  qualified : List String
  /-- The rows. -/
  rows : List (List Datum)
  /-- Every column has a wire name. -/
  named : qualified.length = columns.length
  /-- Every row has one cell for each column. -/
  width : ∀ row ∈ rows, row.length = columns.length

namespace ResultSet

/-! ## Construction -/

/-- Checks that every row has one cell for each column; the first row that has not is reported. -/
def ofRows (columns qualified : List String) (named : qualified.length = columns.length)
    (rows : List (List Datum)) : Except Error ResultSet :=
  if width : ∀ row ∈ rows, row.length = columns.length then
    .ok ⟨columns, qualified, rows, named, width⟩
  else
    let cells := (rows.find? fun row => row.length != columns.length).elim 0 List.length
    .error (.unexpectedResponse (.rowWidth cells columns))

/-- The position of a text in a list of texts. -/
def position? (names : List String) (name : String) : Option Nat :=
  names.findIdx? fun other => other == name

/-! ## Reading -/

/-- The number of rows. -/
def size (r : ResultSet) : Nat :=
  r.rows.length

/-- The row at a place. -/
def row? (r : ResultSet) (index : Nat) : Option (List Datum) :=
  r.rows[index]?

/-- The column of a name: a name that was asked for before a wire name, the leftmost first. -/
def columnIndex? (r : ResultSet) (name : String) : Option Nat :=
  (position? r.columns name).or (position? r.qualified name)

/-- The cell in a row and a named column. -/
def get? (r : ResultSet) (index : Nat) (name : String) : Option Datum := do
  let column ← r.columnIndex? name
  let row ← r.row? index
  row[column]?

/-- The cells of one column, from the first row to the last. -/
def cells (r : ResultSet) (column : Nat) : List Datum :=
  r.rows.map fun row => row[column]?.getD .null

/-- The cells of a named column. -/
def column? (r : ResultSet) (name : String) : Option (List Datum) :=
  (r.columnIndex? name).map r.cells

/-- Writes a text into an increasing list of texts unless it is there. -/
def insertText (text : String) : List String → List String
  | [] => [text]
  | other :: rest =>
    if text < other then text :: other :: rest
    else if text = other then other :: rest
    else other :: insertText text rest

/-- The different texts of a list in increasing order. -/
def sortedTexts (texts : List String) : List String :=
  texts.foldr insertText []

/-- The different plain texts of a named column in increasing order. -/
def distinct? (r : ResultSet) (name : String) : Option (List String) :=
  (r.column? name).map fun cells => sortedTexts (cells.map Datum.plain)

/-! ## Order of the rows -/

/-- The place of an identifier, that of its last occurrence; unknown identifiers come last. -/
def rank (ids : List String) (id : String) : Nat :=
  match ids.reverse.findIdx? fun other => other == id with
  | some fromEnd => ids.length - 1 - fromEnd
  | none => ids.length

/-- The rank of a row by the plain text of one of its cells. -/
def rowRank (ids : List String) (column : Nat) (row : List Datum) : Nat :=
  rank ids (row[column]?.getD .null).plain

/-- Sorts the rows by the ranks of their identifiers; rows of one rank keep their order. -/
def orderByIds (r : ResultSet) (column : Nat) (ids : List String) : ResultSet :=
  { r with
    rows := r.rows.mergeSort fun a b => rowRank ids column a ≤ rowRank ids column b
    width := fun row mem => r.width row (List.mem_mergeSort.mp mem) }

end ResultSet

end RemoteTable
