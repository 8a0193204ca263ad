import RemoteTable.Selection

/-!
# Operations on tables

A filter is resolved to a selection with the field names of the table. The history of records is
asked for with the same scope by `Selection.historyRecords` and `Selection.historyCount`: the
selection's identifiers, and then the caller's filters behind a conjunction.
-/

namespace RemoteTable

namespace Table

/-! ## Resolving filters -/

/-- The selection of given identifiers. -/
def select (t : Table) (ids : List String) : Selection :=
  ⟨t, ids⟩

/-- The request that resolves filters. -/
def filterRequest (t : Table) (filters : FilterChain) : Request :=
  ((Request.call "c_orm" "get_with_filter").param "sign_array" (Json.ofTexts [t.field "id"])).param
    "sign_filter_array" (t.formatFilters filters).toWire

/-- The selection of the records that filters match. -/
def filter (t : Table) (filters : FilterChain) : Call Selection := do
  let ids ← Call.ofExcept (← t.call (t.filterRequest filters)).ids
  return t.select ids

/-! ## Records of the table -/

/-- The pipelines of the table. -/
def pipelines (t : Table) : Call (List Pipeline) := do
  let request := (Request.call "c_pipeline" "get_with_module").param "field_array"
    (Json.ofTexts (Record.fields Pipeline))
  Call.ofExcept (Record.ofResponse (← t.call request))

/-- The history records that filters match. -/
def historyRecords (t : Table) (filters : FilterChain) : Call (List HistoryRecord) := do
  let request := ((Request.call "c_history" "get_with_filter").param "field_array"
    (Json.ofTexts (Record.fields HistoryRecord))).param "filter_array"
    (t.formatFilters filters).toWire
  Call.ofExcept (Record.ofResponse (← t.call request))

/-- The number of history records that filters match. -/
def historyCount (t : Table) (filters : FilterChain) : Call Nat := do
  let request := (Request.call "c_history" "count_with_filter").param "filter_array"
    (t.formatFilters filters).toWire
  Call.ofExcept (← t.call request).count

/-! ## Settings of the table -/

/-- Whether the caller has a permission. -/
def hasPermission (t : Table) (name : String) : Call Bool := do
  return (← t.call
    ((Request.call "c_permission" "has_permission").param "permission_name" (.string name))).flag

/-- The tables joined to this one, as the server lists them. -/
def joinedTables (t : Table) : Call Json := do
  return (← t.call (Request.call "c_module" "get_join_module_list")).data

/-- A setting of the table, as the server holds it. -/
def setting (t : Table) (field : String) : Call Json := do
  return (← t.call
    ((Request.call "c_module" "get_one_with_module").param "field" (.string field))).data

/-- Keeps data of the caller's own page of the table. -/
def setPageData (t : Table) (data : Json) : Call Unit := do
  let _ ← t.call ((Request.call "c_page" "set_data_with_my_page").param "show_data" data)

end Table

/-! ## History of selected records -/

namespace Selection

/-- The filters of the selection's history: its tasks, and the caller's filters behind a
conjunction. -/
def historyFilters (s : Selection) (extra : Option FilterChain) : FilterChain :=
  let scope := FilterChain.single (Filter.ofValue "#task_id" (Datum.ofTexts s.ids))
  match extra with
  | some filters => scope.and filters
  | none => scope

/-- The history records of the selection. -/
def historyRecords (s : Selection) (extra : Option FilterChain) : Call (List HistoryRecord) :=
  s.table.historyRecords (s.historyFilters extra)

/-- The number of history records of the selection. -/
def historyCount (s : Selection) (extra : Option FilterChain) : Call Nat :=
  s.table.historyCount (s.historyFilters extra)

end Selection

/-! ## Tables of the public database -/

/-- A table of the database that all projects share, with the filter that its active records pass
and the field that names them. -/
structure PublicTable where
  /-- The table. -/
  table : Table
  /-- What active records have in common. -/
  active : Filter
  /-- The field that names a record. -/
  nameField : String
deriving Repr

namespace PublicTable

/-- The database of public tables. -/
def databaseName : String := "public"

/-- A public table by its name. -/
def ofName (c : Client) (name : String) (active : Filter) (nameField : String) : PublicTable :=
  ⟨(c.database databaseName).table name, active, nameField⟩

/-- The projects. -/
def projects (c : Client) : PublicTable :=
  ofName c "project" (.ofValue "status" (.string "Active")) "full_name"

/-- The accounts. -/
def accounts (c : Client) : PublicTable :=
  ofName c "account" (.ofValue "status" (.string "Y")) "name"

/-- The active records. -/
def all (p : PublicTable) : Call Selection :=
  p.table.filter p.active

/-- The names of the active records. -/
def names (p : PublicTable) : Call (List String) := do
  return (← (← p.all).getField p.nameField).map Datum.plain

end PublicTable

end RemoteTable
