import RemoteTable.Exchange

/-!
# Records

Records of fixed shape. Pipelines and history records come as rows: the request names their fields,
and the cells of a row are the record's members in the same order. The settings of a filebox come as
named values.
-/

namespace RemoteTable

/-- A record that is asked for by its fields and read from the cells of a row. -/
class Record (α : Type) where
  /-- What messages call the record. -/
  label : String
  /-- The wire names of the fields, in the order of the cells. -/
  fields : List String
  /-- The record of one text for each of the fields. -/
  ofTexts? : List String → Option α
  /-- The texts of the record's members, in the order of the fields. -/
  toTexts : α → List String

namespace Record

variable {α : Type} [Record α]

/-- Reads a record from a row of its width. -/
def ofRow (row : List Datum) : Except Error α :=
  match ofTexts? (row.map Datum.plain) with
  | some record => .ok record
  | none =>
    .error (.unexpectedResponse (.recordWidth (label α) row.length (fields α).length))

/-- Reads the records of a list of rows, all of them or none. -/
def ofResponse (response : Response) : Except Error (List α) := do
  (← response.rows).mapM ofRow

end Record

/-- A pipeline of a table. -/
structure Pipeline where
  /-- The identifier. -/
  id : String
  /-- The name. -/
  name : String
  /-- The table it belongs to. -/
  table : String
deriving DecidableEq, Repr

instance : Record Pipeline where
  label := "PipelineInfo"
  fields := ["#id", "name", "module"]
  ofTexts?
    | [id, name, table] => some ⟨id, name, table⟩
    | _ => none
  toTexts p := [p.id, p.name, p.table]

/-- A step in the history of a task. -/
structure HistoryRecord where
  /-- The identifier. -/
  id : String
  /-- The task. -/
  taskId : String
  /-- The account that acted. -/
  accountId : String
  /-- The step of the work. -/
  step : String
  /-- The status that was set. -/
  status : String
  /-- The files that were handed in. -/
  file : String
  /-- The remark. -/
  text : String
  /-- Who wrote the record. -/
  createBy : String
  /-- When it was written. -/
  time : String
deriving DecidableEq, Repr

instance : Record HistoryRecord where
  label := "HistoryInfo"
  fields := ["#id", "#task_id", "#account_id", "step", "status", "file", "text", "create_by", "time"]
  ofTexts?
    | [id, taskId, accountId, step, status, file, text, createBy, time] =>
      some ⟨id, taskId, accountId, step, status, file, text, createBy, time⟩
    | _ => none
  toTexts h :=
    [h.id, h.taskId, h.accountId, h.step, h.status, h.file, h.text, h.createBy, h.time]

/-- The settings of a filebox. -/
structure Filebox where
  /-- Where the files are put. -/
  path : String
  /-- The class of the filebox. -/
  classify : String
  /-- The title shown. -/
  title : String
  /-- The sign that identifies it. -/
  sign : String
  /-- The colour shown. -/
  color : String
  /-- The rules for file names. -/
  rule : List String
  /-- The rules as they are shown. -/
  ruleView : List String
  /-- Whether handing in a file submits the task. -/
  isSubmit : Bool
  /-- Whether older files are moved to the history. -/
  isMoveOldToHistory : Bool
  /-- Whether files of the same name are moved to the history. -/
  isMoveSameToHistory : Bool
  /-- Whether the history adds a version to names. -/
  isInHistoryAddVersion : Bool
  /-- Whether the history adds the date and time to names. -/
  isInHistoryAddDatetime : Bool
  /-- Whether overwriting is disabled. -/
  isCoverDisable : Bool
  /-- Whether the first reviewer is told. -/
  isMsgToFirstQc : Bool
deriving DecidableEq, Repr

namespace Filebox

/-- The value of a required key. -/
def detail (settings : Members Datum) (key : String) : Except Error Datum :=
  match settings.get? key with
  | some d => .ok d
  | none => .error (.unexpectedResponse (.missingDetail key))

/-- The plain text of a required key. -/
def textDetail (settings : Members Datum) (key : String) : Except Error String :=
  Datum.plain <$> detail settings key

/-- The plain texts of the elements of a required key; anything but a sequence has none. -/
def listDetail (settings : Members Datum) (key : String) : Except Error (List String) :=
  (fun d => (d.items?.getD []).map Datum.plain) <$> detail settings key

/-- The flag of a required key, which is set by the text `Y` only. -/
def flagDetail (settings : Members Datum) (key : String) : Except Error Bool :=
  (fun d => d.text? == some "Y") <$> detail settings key

/-- Reads the settings from named values, all of which are required. -/
def ofMembers (settings : Members Datum) : Except Error Filebox := do
  let path ← textDetail settings "path"
  let classify ← textDetail settings "classify"
  let title ← textDetail settings "title"
  let sign ← textDetail settings "sign"
  let color ← textDetail settings "color"
  let rule ← listDetail settings "rule"
  let ruleView ← listDetail settings "rule_view"
  let isSubmit ← flagDetail settings "is_submit"
  let isMoveOldToHistory ← flagDetail settings "is_move_old_to_history"
  let isMoveSameToHistory ← flagDetail settings "is_move_same_to_history"
  let isInHistoryAddVersion ← flagDetail settings "is_in_history_add_version"
  let isInHistoryAddDatetime ← flagDetail settings "is_in_history_add_datetime"
  let isCoverDisable ← flagDetail settings "is_cover_disable"
  let isMsgToFirstQc ← flagDetail settings "is_msg_to_first_qc"
  pure ⟨path, classify, title, sign, color, rule, ruleView, isSubmit, isMoveOldToHistory,
    isMoveSameToHistory, isInHistoryAddVersion, isInHistoryAddDatetime, isCoverDisable,
    isMsgToFirstQc⟩

end Filebox

end RemoteTable
