import RemoteTable.Assignment
import RemoteTable.Client
import RemoteTable.Record
import RemoteTable.ResultSet

/-!
# Selections and entries

A selection is a list of identifiers in a table, as a filter resolved them or a caller gave them. It
holds no data: every operation sends one request with the identifiers. An entry is a selection of
exactly one record.
-/

namespace RemoteTable

/-- Identifiers of records of a table, in order and possibly repeated. -/
structure Selection where
  /-- The table of the records. -/
  table : Table
  /-- The identifiers. -/
  ids : List String
deriving DecidableEq, Repr

/-- One record of a table. -/
structure Entry where
  /-- The table of the record. -/
  table : Table
  /-- The identifier. -/
  id : String
deriving DecidableEq, Repr

namespace Entry

/-- The selection of the record alone. -/
def selection (e : Entry) : Selection :=
  ⟨e.table, [e.id]⟩

end Entry

namespace Selection

/-- Whether two selections have the same identifiers in the same table. -/
def sameSelection (s t : Selection) : Bool :=
  s.table.sameTable t.table && s.ids == t.ids

/-- The identifiers as a parameter. -/
def idArray (s : Selection) : Json :=
  Json.ofTexts s.ids

/-- Sends a request with the identifiers. -/
def call (s : Selection) (request : Request) : Call Response :=
  s.table.call (request.param "id_array" s.idArray)

/-! ## Reading and writing fields -/

/-- The column among wire names that holds the identifiers: the leftmost that is the table's id
field or the system field of that name. -/
def idColumn? (s : Selection) (qualified : List String) : Option Nat :=
  qualified.findIdx? fun name => name == s.table.field "id" || name == "#id"

/-- The result set of the rows that answer a read of fields, in the order of the selection when the
identifiers are among the fields. -/
def resultOf (s : Selection) (names : List String) (rows : List (List Datum)) :
    Except Error ResultSet := do
  let qualified := names.map s.table.field
  let result ← ResultSet.ofRows names qualified (by simp [qualified]) rows
  match s.idColumn? qualified with
  | some column => pure (result.orderByIds column s.ids)
  | none => pure result

/-- The request that reads fields. -/
def fieldsRequest (s : Selection) (names : List String) : Request :=
  let signs := Json.ofTexts (names.map s.table.field)
  ((Request.call "c_orm" "get_in_id").param "sign_array" signs).param "order_sign_array" signs

/-- Reads fields of the selected records. -/
def getFields (s : Selection) (names : List String) : Call ResultSet := do
  let response ← s.call (s.fieldsRequest names)
  let rows ← Call.ofExcept response.rows
  Call.ofExcept (s.resultOf names rows)

/-- Reads one field of the selected records. -/
def getField (s : Selection) (name : String) : Call (List Datum) := do
  return (← s.getFields [name]).cells 0

/-- The values to write under their wire names; the last value of a field counts. -/
def assignments (s : Selection) (values : List (String × Datum)) : Members Json :=
  Members.ofList (values.map fun (name, value) => (s.table.field name, value.toJson))

/-- Writes values to all selected records. -/
def setFields (s : Selection) (values : List (String × Datum)) : Call Unit := do
  let _ ← s.call
    ((Request.call "c_orm" "set_in_id").param "sign_data_array" (.object (s.assignments values)))

/-- Writes one value to all selected records. -/
def setField (s : Selection) (name : String) (value : Datum) : Call Unit :=
  s.setFields [(name, value)]

/-- Deletes the selected records. -/
def delete (s : Selection) : Call Unit := do
  let _ ← s.call (Request.call "c_orm" "del_in_id")

/-! ## Narrowing to one record -/

/-- The entries of the identifiers, in order. -/
def toEntries (s : Selection) : List Entry :=
  s.ids.map fun id => ⟨s.table, id⟩

/-- The assignment that a reply gives for an identifier: that of the last row with the identifier in
front, nothing if there is none. -/
def assignmentOf (rows : List (List Datum)) (id : String) : Datum :=
  let found := rows.reverse.find? fun row => ((row.head?.getD Datum.null).plain == id)
  (found.bind fun row => row[1]?).getD .null

/-- The entry that is assigned best to an account, the first of several. -/
def guess (s : Selection) (account : String) : Call Entry := do
  let result ← s.getFields ["id", "account_id"]
  let assigned := s.ids.map (assignmentOf result.rows)
  match (Assignment.bestMatch assigned account).bind fun index => s.toEntries[index]? with
  | some entry => pure entry
  | none => throw (.emptyMatch s.table.name)

/-- One entry of the selection: the only one, or else the one that is assigned best to an
account. -/
def toEntry (s : Selection) (account : String) : Call Entry :=
  match s.ids with
  | [] => throw (.emptyMatch s.table.name)
  | [id] => pure ⟨s.table, id⟩
  | _ => s.guess account

/-! ## Paths and fileboxes -/

/-- The platform that path requests are made for. -/
def platform : String := "linux"

/-- The folder paths of some signs. -/
def getPath (s : Selection) (signs : List String) : Call (Members Datum) := do
  let request := (((Request.call "c_folder" "get_replace_path_in_sign").param "sign_array"
    (Json.ofTexts signs)).param "task_id_array" s.idArray).param "os" (.string platform)
  Call.ofExcept (← s.call request).object

/-- The filebox settings of a sign for the first of the selected records. -/
def getFilebox (s : Selection) (sign : String) : Call Filebox := do
  match s.ids.head? with
  | none => throw (.emptyMatch s.table.name)
  | some id =>
    let request := (((Request.call "c_file" "filebox_get_one_with_sign").param "sign"
      (.string sign)).param "task_id" (.string id)).param "os" (.string platform)
    let settings ← Call.ofExcept (← s.call request).object
    Call.ofExcept (Filebox.ofMembers settings)

end Selection

namespace Entry

/-- Reads fields of the record: the first row of the reply. -/
def getFields (e : Entry) (names : List String) : Call (List Datum) := do
  match (← e.selection.getFields names).rows.head? with
  | some row => pure row
  | none => throw (.unexpectedResponse (.noRow e.table.name e.id))

/-- Reads one field of the record. -/
def getField (e : Entry) (name : String) : Call Datum := do
  return (← e.getFields [name]).head?.getD .null

/-- Writes values to the record. -/
def setFields (e : Entry) (values : List (String × Datum)) : Call Unit :=
  e.selection.setFields values

/-- Writes one value to the record. -/
def setField (e : Entry) (name : String) (value : Datum) : Call Unit :=
  e.selection.setField name value

/-- Deletes the record. -/
def delete (e : Entry) : Call Unit :=
  e.selection.delete

end Entry

end RemoteTable
