import RemoteTable.Proofs.Operation.Course

/-!
# Lists of records

The pipelines and the history records of a table are asked for by the names of their fields and decoded
by the places of the cells. Each member of a record has the name of one field (`Record.Named`), and it
is the plain text of the cell at the place of this field in the request. Either all rows of a reply are
decoded or none is, and what records are encoded as is decoded to the same records
(`Record.AllOrNothing`, `Table.records_all_or_nothing`).
-/

namespace RemoteTable

/-! ## Data that list rows -/

namespace Response

/-- Whether data list rows of a width: they are a sequence of sequences of that many cells, or what
stands for no rows. -/
inductive ListsRows (width : ℕ) : (data : Json) → (rows : List (List Json)) → Prop
  /-- Nothing is no rows. -/
  | null : ListsRows width .null []
  /-- The empty text is no rows. -/
  | empty : ListsRows width (.string "") []
  /-- Every element is a row. -/
  | rows {rows : List (List Json)} (hwidth : ∀ row ∈ rows, row.length = width) :
    ListsRows width (.array (rows.map .array)) rows

variable {r : Response} {width : ℕ}

/-- A reply of success whose data list rows carries them. -/
theorem ListsRows.carriesRows {rows : List (List Json)} (h : ListsRows width r.data rows)
    (hsuccess : r.isSuccess = true) : r.CarriesRows width (rows.map Datum.ofItems) := by
  generalize hdata : r.data = data at h
  cases h with
  | null => exact ⟨hsuccess, .inr ⟨rfl, .inl hdata⟩, by simp⟩
  | empty => exact ⟨hsuccess, .inr ⟨rfl, .inr hdata⟩, by simp⟩
  | rows hwidth =>
    refine ⟨hsuccess, .inl ?_, ?_⟩
    · simp [hdata, Function.comp_def]
    · intro row hrow
      obtain ⟨cells, hcells, rfl⟩ := List.mem_map.mp hrow
      rw [Datum.ofItems_eq_map, List.length_map, hwidth cells hcells]

/-- The data of a reply that carries rows list them. -/
theorem CarriesRows.listsRows {rows : List (List Datum)} (h : r.CarriesRows width rows) :
    ListsRows width r.data (rows.map Datum.toItems) := by
  rcases h.data with hdata | ⟨rfl, hdata | hdata⟩
  · have hrows : r.data = .array ((rows.map Datum.toItems).map .array) := by
      rw [hdata, List.map_map]
      rfl
    rw [hrows]
    refine .rows fun row hrow => ?_
    obtain ⟨cells, hcells, rfl⟩ := List.mem_map.mp hrow
    rw [Datum.toItems_eq_map, List.length_map, h.width cells hcells]
  · rw [hdata]
    exact .null
  · rw [hdata]
    exact .empty

end Response

namespace Record

/-! ## Members by the names of their fields -/

/-- A record each of whose members has the wire name of one field. -/
class Named (α : Type) [Record α] where
  /-- The text of the member with the name of a field. -/
  member? : α → String → Option String
  /-- The texts of a record are its members in the order of the fields. -/
  map_member? : ∀ a : α, (fields α).map (member? a) = (toTexts a).map some

end Record

/-- The member of a pipeline that a field is for. -/
def Pipeline.member? (p : Pipeline) : (field : String) → Option String
  | "#id" => some p.id
  | "name" => some p.name
  | "module" => some p.table
  | _ => none

instance : Record.Named Pipeline where
  member? := Pipeline.member?
  map_member? _ := rfl

/-- The member of a history record that a field is for. -/
def HistoryRecord.member? (h : HistoryRecord) : (field : String) → Option String
  | "#id" => some h.id
  | "#task_id" => some h.taskId
  | "#account_id" => some h.accountId
  | "step" => some h.step
  | "status" => some h.status
  | "file" => some h.file
  | "text" => some h.text
  | "create_by" => some h.createBy
  | "time" => some h.time
  | _ => none

instance : Record.Named HistoryRecord where
  member? := HistoryRecord.member?
  map_member? _ := rfl

namespace Record

open Response (ListsRows)

variable {α : Type} [Record α] [Named α]

/-- Whether records are those of rows: one for each row, in the order of the rows, and the member of
each field is the plain text of the cell at its place. -/
structure AreOfRows (rows : List (List Json)) (records : List α) : Prop where
  /-- There is a record for every row. -/
  length : records.length = rows.length
  /-- The members are the texts of the cells at the places of their fields. -/
  member : ∀ (i j : ℕ) row record cell field, rows[i]? = some row → records[i]? = some record →
    row[j]? = some cell → (fields α)[j]? = some field →
      Named.member? record field = some (Datum.ofJson cell).plain

/-- The data of records, as rows of the texts of their members in the order of the fields. -/
def encode (records : List α) : Json :=
  .array (records.map fun record =>
    .array ((fields α).map fun field => .string ((Named.member? record field).getD "")))

/-- The texts of a record are those of its members. -/
theorem map_member?_getD (record : α) :
    (fields α).map (fun field => (Named.member? record field).getD "") = toTexts record := by
  have htexts := congrArg (List.map fun text? => Option.getD text? "") (Named.map_member? record)
  simpa [Function.comp_def] using htexts

/-- A record has the text of a field under the field's name. -/
theorem member?_of_getElem? {record : α} {j : ℕ} {field text : String}
    (hfield : (fields α)[j]? = some field) (htext : (toTexts record)[j]? = some text) :
    Named.member? record field = some text := by
  have hj := congrArg (fun members => members[j]?) (Named.map_member? record)
  simpa [hfield, htext] using hj

/-- Records with the texts of the rows are those of the rows. -/
theorem areOfRows_of_toTexts {rows : List (List Json)} {records : List α}
    (h : (rows.map Datum.ofItems).map (List.map Datum.plain) = records.map toTexts) :
    AreOfRows rows records where
  length := by simpa using (congrArg List.length h).symm
  member := by
    intro i j row record cell field hrow hrecord hcell hfield
    have hi := congrArg (fun texts => texts[i]?) h
    simp only [List.getElem?_map, hrow, hrecord, Option.map_some, Option.some.injEq] at hi
    refine member?_of_getElem? hfield ?_
    rw [← hi, Datum.ofItems_eq_map]
    simp [hcell]

variable [Lawful α]

/-- Rows of the right width make records. -/
theorem exists_carries {r : Response} {rows : List (List Json)}
    (h : ListsRows (fields α).length r.data rows) (hsuccess : r.isSuccess = true) :
    ∃ records : List α, Carries r records ∧ AreOfRows rows records := by
  have hrows := h.carriesRows hsuccess
  obtain ⟨records, hrecords, -⟩ := exists_mapM_eq_ok (f := ofRow (α := α)) fun row hrow => by
    obtain ⟨record, hrecord⟩ :=
      Lawful.exists_ofTexts? (α := α) ((row.length_map Datum.plain).trans (hrows.width row hrow))
    exact ⟨record, ofRow_eq_ok_iff.mpr (Lawful.ofTexts?_eq_some_iff.mp hrecord)⟩
  obtain ⟨-, htexts⟩ := mapM_ofRow_eq_ok_iff.mp hrecords
  exact ⟨records, ⟨_, hrows, htexts⟩, areOfRows_of_toTexts htexts⟩

/-- What records are encoded as carries these records. -/
theorem carries_encode {r : Response} {records : List α} (hsuccess : r.isSuccess = true)
    (hdata : r.data = encode records) : Carries r records := by
  refine ⟨records.map fun record => (toTexts record).map Datum.string, ⟨hsuccess, .inl ?_, ?_⟩, ?_⟩
  · rw [hdata, encode]
    simp only [← map_member?_getD, Datum.toItems_eq_map, List.map_map, Function.comp_def,
      Datum.toJson]
  · intro row hrow
    obtain ⟨record, -, rfl⟩ := List.mem_map.mp hrow
    rw [List.length_map, Lawful.length_toTexts]
  · have hplain : ∀ texts : List String, (texts.map Datum.string).map Datum.plain = texts := by
      intro texts
      rw [List.map_map]
      exact List.map_id texts
    rw [List.map_map]
    exact List.map_congr_left fun record _ => hplain (toTexts record)

/-! ## All or nothing -/

/-- Whether a call decodes the rows of a successful reply to records, all of them or none. -/
structure AllOrNothing (call : Call (List α)) : Prop where
  /-- One request is sent, which names the fields in their order. -/
  asks : ∀ log outcome, call.Runs log outcome → ∃ sent reply, log = [(sent, reply)] ∧
    sent.get? "field_array" = some (.array ((fields α).map .string))
  /-- Data that list rows of the width of the record are decoded to the records of all these rows. -/
  decodes : ∀ (r : Response) rows, r.isSuccess = true → ListsRows (fields α).length r.data rows →
    ∃ records, call.outcome (fun _ => .ok r) = .ok records ∧ AreOfRows rows records
  /-- All other data are unexpected, and no record is returned. -/
  rejects : ∀ r : Response, r.isSuccess = true → (¬ ∃ rows, ListsRows (fields α).length r.data rows) →
    ∃ fault, call.outcome (fun _ => .ok r) = .error (.unexpectedResponse fault)
  /-- Encoded records are decoded to themselves. -/
  decodes_encode : ∀ (r : Response) records, r.isSuccess = true → r.data = encode records →
    call.outcome (fun _ => .ok r) = .ok records

/-- A call that asks for the fields of a record kind reads all records or none. -/
theorem allOrNothing_of_single {request sent : Request}
    (hfields : sent.get? "field_array" = some (.ofTexts (fields α))) :
    AllOrNothing (α := α)
      (Call.single sent fun reply => Table.accepted request reply >>= ofResponse) := by
  have houtcome : ∀ r : Response, r.isSuccess = true →
      (Call.single sent fun reply => Table.accepted request reply >>= ofResponse (α := α)).outcome
        (fun _ => .ok r) = ofResponse r := by
    intro r hsuccess
    rw [Call.outcome_single, Table.accepted_ok request hsuccess]
    rfl
  constructor
  case asks =>
    intro log outcome h
    obtain ⟨reply, rfl, -⟩ := Call.runs_single_iff.mp h
    exact ⟨sent, reply, rfl, hfields⟩
  case decodes =>
    intro r rows hsuccess hlists
    obtain ⟨records, hcarries, hare⟩ := exists_carries hlists hsuccess
    rw [houtcome r hsuccess]
    exact ⟨records, (reads_ofResponse.ok_iff hsuccess).mpr hcarries, hare⟩
  case rejects =>
    intro r hsuccess hnone
    rw [houtcome r hsuccess]
    -- data that carry records list the rows of these
    refine reads_ofResponse.exists_error hsuccess fun records hcarries => ?_
    obtain ⟨rows, hrows, -⟩ := hcarries
    exact hnone ⟨_, hrows.listsRows⟩
  case decodes_encode =>
    intro r records hsuccess hdata
    rw [houtcome r hsuccess]
    exact (reads_ofResponse.ok_iff hsuccess).mpr (carries_encode hsuccess hdata)

end Record

/-- The request for the records of a table leaves with the fields that it was planned with. -/
theorem Operation.get?_sent_fields {α : Type} (op : Operation α) (own : Request)
    (hids : op.ids? = none) : (op.sent own).get? "field_array" = own.get? "field_array" :=
  (op.inContext_sent own).others "field_array" (by decide) fun _ => hids

/-- The pipelines and the history records of a table are decoded all or none. -/
theorem Table.records_all_or_nothing (t : Table) (filters : FilterChain) :
    Record.AllOrNothing t.pipelines ∧ Record.AllOrNothing (t.historyRecords filters) := by
  constructor
  · rw [show t.pipelines = _ from (Operation.pipelines t).perform_eq]
    refine Record.allOrNothing_of_single ?_
    rw [Operation.get?_sent_fields _ _ rfl]
    rfl
  · rw [show t.historyRecords filters = _ from (Operation.tableRecords t filters).perform_eq]
    refine Record.allOrNothing_of_single ?_
    rw [Operation.get?_sent_fields _ _ rfl, Operation.recordsPlan, Request.ofParams]
    simp [Request.get?_param, Record.fields]

end RemoteTable
