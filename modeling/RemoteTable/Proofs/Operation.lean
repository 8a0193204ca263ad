import RemoteTable.Proofs.Exchange.Runs
import RemoteTable.Proofs.Selection.History
import RemoteTable.Proofs.Selection.Narrowing
import RemoteTable.Proofs.Table.Filters

/-!
# Operations and their requests

All that can be done with a table, a selection and an entry, as one data type (`Operation`). An
operation knows its outcome without asking, or it plans one request (`Operation.plan`), with a
controller, a method and parameters of its own, and reads its result from the reply
(`Operation.perform_eq`). The request leaves in its context: with the names of the table and of the
database, with a token and, where it is about selected records, with their identifiers. Nothing else
is added or changed (`Operation.requests_in_context`).
-/

namespace RemoteTable

/-- What can be done with a table, a selection or an entry, with the type of the result. The history
of an entry is that of its selection. -/
inductive Operation : Type → Type where
  /-- A request of the caller is sent to a table. -/
  | call (t : Table) (request : Request) : Operation Response
  /-- Filters are resolved to a selection. -/
  | filter (t : Table) (filters : FilterChain) : Operation Selection
  /-- The pipelines of a table. -/
  | pipelines (t : Table) : Operation (List Pipeline)
  /-- The history records of a table that filters match. -/
  | tableRecords (t : Table) (filters : FilterChain) : Operation (List HistoryRecord)
  /-- The number of these records. -/
  | tableCount (t : Table) (filters : FilterChain) : Operation ℕ
  /-- Whether the caller has a permission. -/
  | hasPermission (t : Table) (name : String) : Operation Bool
  /-- The tables joined to a table. -/
  | joinedTables (t : Table) : Operation Json
  /-- A setting of a table. -/
  | setting (t : Table) (field : String) : Operation Json
  /-- Data of the caller's page are kept. -/
  | setPageData (t : Table) (data : Json) : Operation Unit
  /-- Fields of selected records are read. -/
  | getFields (s : Selection) (names : List String) : Operation ResultSet
  /-- One field of selected records is read. -/
  | getField (s : Selection) (name : String) : Operation (List Datum)
  /-- Values are written to selected records. -/
  | setFields (s : Selection) (values : List (String × Datum)) : Operation Unit
  /-- One value is written to selected records. -/
  | setField (s : Selection) (name : String) (value : Datum) : Operation Unit
  /-- Selected records are deleted. -/
  | delete (s : Selection) : Operation Unit
  /-- A selection is narrowed to one entry. -/
  | toEntry (s : Selection) (account : String) : Operation Entry
  /-- The folder paths of signs. -/
  | getPath (s : Selection) (signs : List String) : Operation (Members Datum)
  /-- The filebox settings of a sign. -/
  | getFilebox (s : Selection) (sign : String) : Operation Filebox
  /-- The history records of a selection. -/
  | historyRecords (s : Selection) (extra : Option FilterChain) : Operation (List HistoryRecord)
  /-- The number of these records. -/
  | historyCount (s : Selection) (extra : Option FilterChain) : Operation ℕ
  /-- Fields of a record are read. -/
  | getEntryFields (e : Entry) (names : List String) : Operation (List Datum)
  /-- One field of a record is read. -/
  | getEntryField (e : Entry) (name : String) : Operation Datum
  /-- Values are written to a record. -/
  | setEntryFields (e : Entry) (values : List (String × Datum)) : Operation Unit
  /-- One value is written to a record. -/
  | setEntryField (e : Entry) (name : String) (value : Datum) : Operation Unit
  /-- A record is deleted. -/
  | deleteEntry (e : Entry) : Operation Unit

/-- The request with certain parameters. -/
def Request.ofParams (controller method : String) (params : List (String × Json)) : Request :=
  params.foldl (fun request pair => request.param pair.1 pair.2) (.call controller method)

namespace Operation

variable {α : Type}

/-- Does it. -/
def perform : {α : Type} → Operation α → Call α
  | _, call t request => t.call request
  | _, filter t filters => t.filter filters
  | _, pipelines t => t.pipelines
  | _, tableRecords t filters => t.historyRecords filters
  | _, tableCount t filters => t.historyCount filters
  | _, hasPermission t name => t.hasPermission name
  | _, joinedTables t => t.joinedTables
  | _, setting t field => t.setting field
  | _, setPageData t data => t.setPageData data
  | _, getFields s names => s.getFields names
  | _, getField s name => s.getField name
  | _, setFields s values => s.setFields values
  | _, setField s name value => s.setField name value
  | _, delete s => s.delete
  | _, toEntry s account => s.toEntry account
  | _, getPath s signs => s.getPath signs
  | _, getFilebox s sign => s.getFilebox sign
  | _, historyRecords s extra => s.historyRecords extra
  | _, historyCount s extra => s.historyCount extra
  | _, getEntryFields e names => e.getFields names
  | _, getEntryField e name => e.getField name
  | _, setEntryFields e values => e.setFields values
  | _, setEntryField e name value => e.setField name value
  | _, deleteEntry e => e.delete

/-- The table it is about. -/
def table : {α : Type} → Operation α → Table
  | _, call t _ | _, filter t _ | _, pipelines t | _, tableRecords t _ | _, tableCount t _
  | _, hasPermission t _ | _, joinedTables t | _, setting t _ | _, setPageData t _ => t
  | _, getFields s _ | _, getField s _ | _, setFields s _ | _, setField s _ _ | _, delete s
  | _, toEntry s _ | _, getPath s _ | _, getFilebox s _ | _, historyRecords s _
  | _, historyCount s _ => s.table
  | _, getEntryFields e _ | _, getEntryField e _ | _, setEntryFields e _ | _, setEntryField e _ _
  | _, deleteEntry e => e.table

/-- The identifiers of the records that its request is about, if it is about certain records. The
history of records is asked for by filters. -/
def ids? : {α : Type} → Operation α → Option (List String)
  | _, call _ _ | _, filter _ _ | _, pipelines _ | _, tableRecords _ _ | _, tableCount _ _
  | _, hasPermission _ _ | _, joinedTables _ | _, setting _ _ | _, setPageData _ _
  | _, historyRecords _ _ | _, historyCount _ _ => none
  | _, getFields s _ | _, getField s _ | _, setFields s _ | _, setField s _ _ | _, delete s
  | _, toEntry s _ | _, getPath s _ | _, getFilebox s _ => some s.ids
  | _, getEntryFields e _ | _, getEntryField e _ | _, setEntryFields e _ | _, setEntryField e _ _
  | _, deleteEntry e => some [e.id]

/-! ## Plans -/

/-- The request for fields of records of a table. -/
def fieldsPlan (t : Table) (names : List String) : Request :=
  let signs := Json.ofTexts (names.map t.field)
  .ofParams "c_orm" "get_in_id" [("sign_array", signs), ("order_sign_array", signs)]

/-- The request that writes values under the wire names of a table. -/
def writingPlan (t : Table) (values : List (String × Datum)) : Request :=
  .ofParams "c_orm" "set_in_id" [("sign_data_array",
    .ofMembers (values.map fun (name, value) => (t.field name, value.toJson)))]

/-- The request for the history records that filters match. -/
def recordsPlan (t : Table) (filters : FilterChain) : Request :=
  .ofParams "c_history" "get_with_filter" [("field_array",
    .ofTexts ["#id", "#task_id", "#account_id", "step", "status", "file", "text", "create_by", "time"]),
    ("filter_array", (t.formatFilters filters).toWire)]

/-- The request for the number of the history records that filters match. -/
def countPlan (t : Table) (filters : FilterChain) : Request :=
  .ofParams "c_history" "count_with_filter" [("filter_array", (t.formatFilters filters).toWire)]

/-- The outcome that is known without asking, or else the request with its own controller, method and
parameters. -/
def plan : {α : Type} → Operation α → Except Error α ⊕ Request
  | _, call _ request => .inr request
  | _, filter t filters => .inr <| .ofParams "c_orm" "get_with_filter"
      [("sign_array", .ofTexts [t.field "id"]), ("sign_filter_array", (t.formatFilters filters).toWire)]
  | _, pipelines _ => .inr <| .ofParams "c_pipeline" "get_with_module"
      [("field_array", .ofTexts ["#id", "name", "module"])]
  | _, tableRecords t filters => .inr (recordsPlan t filters)
  | _, tableCount t filters => .inr (countPlan t filters)
  | _, hasPermission _ name =>
    .inr <| .ofParams "c_permission" "has_permission" [("permission_name", .string name)]
  | _, joinedTables _ => .inr <| .ofParams "c_module" "get_join_module_list" []
  | _, setting _ field =>
    .inr <| .ofParams "c_module" "get_one_with_module" [("field", .string field)]
  | _, setPageData _ data =>
    .inr <| .ofParams "c_page" "set_data_with_my_page" [("show_data", data)]
  | _, getFields s names => .inr (fieldsPlan s.table names)
  | _, getField s name => .inr (fieldsPlan s.table [name])
  | _, setFields s values => .inr (writingPlan s.table values)
  | _, setField s name value => .inr (writingPlan s.table [(name, value)])
  | _, delete _ => .inr <| .ofParams "c_orm" "del_in_id" []
  | _, toEntry s _ =>
    match s.ids with
    | [] => .inl (.error (.emptyMatch s.table.name))
    | [id] => .inl (.ok ⟨s.table, id⟩)
    | _ => .inr (fieldsPlan s.table ["id", "account_id"])
  | _, getPath s signs => .inr <| .ofParams "c_folder" "get_replace_path_in_sign"
      [("sign_array", .ofTexts signs), ("task_id_array", .ofTexts s.ids), ("os", .string "linux")]
  | _, getFilebox s sign =>
    match s.ids with
    | [] => .inl (.error (.emptyMatch s.table.name))
    | id :: _ => .inr <| .ofParams "c_file" "filebox_get_one_with_sign"
        [("sign", .string sign), ("task_id", .string id), ("os", .string "linux")]
  | _, historyRecords s extra => .inr (recordsPlan s.table (s.historyFilters extra))
  | _, historyCount s extra => .inr (countPlan s.table (s.historyFilters extra))
  | _, getEntryFields e names => .inr (fieldsPlan e.table names)
  | _, getEntryField e name => .inr (fieldsPlan e.table [name])
  | _, setEntryFields e values => .inr (writingPlan e.table values)
  | _, setEntryField e name value => .inr (writingPlan e.table [(name, value)])
  | _, deleteEntry _ => .inr <| .ofParams "c_orm" "del_in_id" []

/-- The request with the identifiers of the records that it is about. -/
def identified (ids? : Option (List String)) (request : Request) : Request :=
  match ids? with
  | some ids => request.param "id_array" (.ofTexts ids)
  | none => request

/-- The request as it leaves. -/
def sent (op : Operation α) (own : Request) : Request :=
  op.table.addressed (identified op.ids? own)

/-! ## Results -/

/-- The result set that the rows of a successful reply are returned as. -/
def readFields (s : Selection) (names : List String) (r : Response) : Except Error ResultSet :=
  r.rows >>= s.resultOf names

/-- The row of a record, which is the first of its result set. -/
def firstRow (e : Entry) (result : ResultSet) : Except Error (List Datum) :=
  match result.rows.head? with
  | some row => .ok row
  | none => .error (.unexpectedResponse (.noRow e.table.name e.id))

/-- The row of a record that the rows of a successful reply lead to. -/
def readEntryFields (e : Entry) (names : List String) (r : Response) : Except Error (List Datum) :=
  readFields e.selection names r >>= firstRow e

/-- What is read from a successful reply. -/
def read : {α : Type} → Operation α → Response → Except Error α
  | _, call _ _, r => .ok r
  | _, filter t _, r => t.select <$> r.ids
  | _, pipelines _, r => Record.ofResponse r
  | _, tableRecords _ _, r => Record.ofResponse r
  | _, tableCount _ _, r => r.count
  | _, hasPermission _ _, r => .ok r.flag
  | _, joinedTables _, r => .ok r.data
  | _, setting _ _, r => .ok r.data
  | _, setPageData _ _, _ => .ok ()
  | _, getFields s names, r => readFields s names r
  | _, getField s name, r => readFields s [name] r >>= fun result => .ok (result.cells 0)
  | _, setFields _ _, _ => .ok ()
  | _, setField _ _ _, _ => .ok ()
  | _, delete _, _ => .ok ()
  | _, toEntry s account, r => readFields s Selection.narrowingFields r >>= s.choice account
  | _, getPath _ _, r => r.object
  | _, getFilebox _ _, r => r.object >>= Filebox.ofMembers
  | _, historyRecords _ _, r => Record.ofResponse r
  | _, historyCount _ _, r => r.count
  | _, getEntryFields e names, r => readEntryFields e names r
  | _, getEntryField e name, r =>
    readEntryFields e [name] r >>= fun row => .ok (row.head?.getD .null)
  | _, setEntryFields _ _, _ => .ok ()
  | _, setEntryField _ _ _, _ => .ok ()
  | _, deleteEntry _, _ => .ok ()

end Operation

/-! ## One request -/

/-- A call that goes on without asking is one request. -/
theorem Table.call_bind_eq_single {α : Type} (t : Table) (request : Request) {f : Response → Call α}
    {g : Response → Except Error α} (h : ∀ r, f r = Call.ofExcept (g r)) :
    t.call request >>= f = Call.single (t.addressed request) fun reply =>
      accepted request reply >>= g := by
  rw [call_eq_single, Call.single_bind h]

/-- What is made of the result of one request without asking is read from the same reply. -/
theorem Call.single_accepted_bind {α β : Type} {request sent : Request}
    {read : Response → Except Error α} {f : α → Call β} {g : α → Except Error β}
    (h : ∀ a, f a = Call.ofExcept (g a)) :
    (Call.single sent fun reply => Table.accepted request reply >>= read) >>= f =
      Call.single sent fun reply => Table.accepted request reply >>= fun r => read r >>= g := by
  rw [Call.single_bind h]
  congr 1
  funext reply
  exact bind_assoc _ _ _

namespace Operation

/-- A read of fields is one request, whose reply is read as the operation says. -/
theorem selection_getFields_eq (s : Selection) (names : List String) :
    s.getFields names = Call.single (s.sentFields names) fun reply =>
      Table.accepted (s.fieldsRequest names) reply >>= readFields s names :=
  s.getFields_eq_single names

theorem entry_getFields_eq (e : Entry) (names : List String) :
    e.getFields names = Call.single (e.selection.sentFields names) fun reply =>
      Table.accepted (e.selection.fieldsRequest names) reply >>= readEntryFields e names := by
  show e.selection.getFields names >>= _ = _
  rw [selection_getFields_eq, Call.single_accepted_bind (g := firstRow e)]
  · rfl
  · intro result
    unfold firstRow
    cases result.rows.head? <;> rfl

/-- An operation has the outcome of its plan, or it sends the request of its plan, and no other, and
reads its result from the reply. -/
theorem perform_eq (op : Operation α) :
    op.perform = match op.plan with
      | .inl outcome => Call.ofExcept outcome
      | .inr own => Call.single (op.sent own) fun reply => Table.accepted own reply >>= op.read := by
  cases op with
  | call t request =>
    refine (t.call_eq_single request).trans ?_
    show _ = Call.single (t.addressed request) fun reply => Table.accepted request reply >>= .ok
    congr 1
    funext reply
    exact (bind_pure _).symm
  | filter t filters => exact t.filter_eq_single filters
  | pipelines t => exact t.call_bind_eq_single _ fun _ => rfl
  | tableRecords t filters => exact t.historyRecords_eq_single filters
  | tableCount t filters => exact t.historyCount_eq_single filters
  | hasPermission t name => exact t.call_bind_eq_single _ fun _ => rfl
  | joinedTables t => exact t.call_bind_eq_single _ fun _ => rfl
  | setting t field => exact t.call_bind_eq_single _ fun _ => rfl
  | setPageData t data => exact t.call_bind_eq_single _ fun _ => rfl
  | getFields s names => exact selection_getFields_eq s names
  | getField s name =>
    show s.getFields [name] >>= _ = _
    rw [selection_getFields_eq]
    exact Call.single_accepted_bind (g := fun result : ResultSet => .ok (result.cells 0)) fun _ => rfl
  | setFields s values => exact s.table.call_bind_eq_single _ fun _ => rfl
  | setField s name value => exact s.table.call_bind_eq_single _ fun _ => rfl
  | delete s => exact s.table.call_bind_eq_single _ fun _ => rfl
  | toEntry s account =>
    show s.toEntry account = _
    obtain ⟨t, _ | ⟨id, _ | ⟨id', ids⟩⟩⟩ := s
    · rfl
    · rfl
    · refine (Selection.guess_eq_single _ account).trans ?_
      show _ = Call.single _ fun reply => Table.accepted _ reply >>= fun r => readFields _ _ r >>= _
      congr 1
      funext reply
      exact bind_assoc _ _ _
  | getPath s signs => exact s.table.call_bind_eq_single _ fun _ => rfl
  | getFilebox s sign =>
    show s.getFilebox sign = _
    obtain ⟨t, _ | ⟨id, ids⟩⟩ := s
    · rfl
    · refine t.call_bind_eq_single _ (g := fun r => r.object >>= Filebox.ofMembers) fun r => ?_
      cases r.object <;> rfl
  | historyRecords s extra => exact s.table.historyRecords_eq_single _
  | historyCount s extra => exact s.table.historyCount_eq_single _
  | getEntryFields e names => exact entry_getFields_eq e names
  | getEntryField e name =>
    show e.getFields [name] >>= _ = _
    rw [entry_getFields_eq]
    exact Call.single_accepted_bind (g := fun row : List Datum => .ok (row.head?.getD .null)) fun _ => rfl
  | setEntryFields e values => exact e.table.call_bind_eq_single _ fun _ => rfl
  | setEntryField e name value => exact e.table.call_bind_eq_single _ fun _ => rfl
  | deleteEntry e => exact e.table.call_bind_eq_single _ fun _ => rfl

/-! ## The context of a request -/

/-- How a request leaves that is made for a table and possibly for certain records, given the request
itself. -/
structure InContext (t : Table) (ids? : Option (List String)) (own sent : Request) : Prop where
  /-- The group of methods is its own. -/
  controller : sent.controller = own.controller
  /-- The method is its own. -/
  method : sent.method = own.method
  /-- The database is that of the table, whatever the request says. -/
  database : sent.get? "db" = some (.string t.database.name)
  /-- The table is this one, whatever the request says. -/
  table : sent.get? "module" = some (.string t.name)
  /-- The token is its own if it has one, or else the table's, or else the client's, if there is one. -/
  token : sent.get? "token" =
    (own.get? "token").or ((t.ownToken.or t.database.client.token).map .string)
  /-- The identifiers are those of the records, in their order and as often as they are there. -/
  ids : ∀ ids, ids? = some ids → sent.get? "id_array" = some (.array (ids.map .string))
  /-- Every other parameter is its own. -/
  others : ∀ name, name ∉ ["db", "module", "token"] → (name = "id_array" → ids? = none) →
    sent.get? name = own.get? name

/-- The identifiers are set over what a request says, if there are any. -/
theorem get?_identified (ids? : Option (List String)) (request : Request) (name : String) :
    (identified ids? request).get? name =
      if name = "id_array" then (ids?.map .ofTexts).or (request.get? name) else request.get? name := by
  cases ids? with
  | none => simp [identified]
  | some ids =>
    rw [identified, Request.get?_param]
    by_cases hname : name = "id_array"
    · rw [if_pos hname.symm, if_pos hname]
      rfl
    · rw [if_neg (Ne.symm hname), if_neg hname]

/-- What an operation sends is its own request in the context of its table. -/
theorem inContext_sent (op : Operation α) (own : Request) :
    InContext op.table op.ids? own (op.sent own) where
  controller := by
    rw [sent, Table.controller_addressed]
    unfold identified
    split <;> rfl
  method := by
    rw [sent, Table.method_addressed]
    unfold identified
    split <;> rfl
  database := Table.get?_addressed_db ..
  table := Table.get?_addressed_module ..
  token := by
    rw [sent, Table.get?_addressed_token_eq, get?_identified, if_neg (by decide)]
    rfl
  ids := by
    intro ids hids
    rw [sent, Table.get?_addressed _ _ (by decide), get?_identified, if_pos rfl, hids]
    rfl
  others := by
    intro name hname hids
    rw [sent, Table.get?_addressed _ _ hname, get?_identified]
    split
    case isTrue heq => rw [hids heq, Option.map_none, Option.none_or]
    case isFalse => rfl

/-- Every request has its context. A run of an operation sends nothing if the outcome is known without
asking, and else exactly one request, which has the controller, the method and the parameters of the
operation, or of the caller, and:

* the names of the database and of the table, in place of any that the caller gave;
* the caller's token, or else the table's, or else the client's, or else none;
* if it is about certain records, their identifiers. -/
theorem requests_in_context (op : Operation α) {log : Transcript} {outcome : Except Error α}
    (h : op.perform.Runs log outcome) :
    (∀ known, op.plan = .inl known → log = []) ∧
      ∀ own, op.plan = .inr own →
        ∃ sent reply, log = [(sent, reply)] ∧ InContext op.table op.ids? own sent := by
  rw [perform_eq] at h
  constructor
  · intro known hplan
    rw [hplan] at h
    exact (Call.runs_ofExcept_iff.mp h).1
  · intro own hplan
    rw [hplan] at h
    obtain ⟨reply, hlog, -⟩ := Call.runs_single_iff.mp h
    exact ⟨op.sent own, reply, hlog, op.inContext_sent own⟩

/-- A caller's request that names another database and has a token of its own, and the deletion of
records one of which is selected twice, with the client's token. -/
theorem preset_requests_in_context :
    let task (ownToken : Option String) : Table := ⟨"task", ⟨"db", ⟨some "client", none⟩⟩, ownToken⟩
    let own : Request := .ofParams "c_orm" "any"
      [("db", .string "other"), ("token", .null), ("id_array", .string "own")]
    (∃ sent reply outcome, (call (task (some "table")) own).perform.Runs [(sent, reply)] outcome ∧
      sent.get? "db" = some (.string "db") ∧ sent.get? "module" = some (.string "task") ∧
      sent.get? "token" = some .null ∧ sent.get? "id_array" = some (.string "own")) ∧
    ∃ sent reply outcome,
      (delete ⟨task none, ["7", "3", "7"]⟩).perform.Runs [(sent, reply)] outcome ∧
      sent.get? "token" = some (.string "client") ∧
      sent.get? "id_array" = some (.array [.string "7", .string "3", .string "7"]) := by
  intro task own
  have hrun : ∀ {α : Type} (op : Operation α) (own : Request), op.plan = .inr own →
      ∃ log outcome, op.perform.Runs log outcome := by
    intro α op own hplan
    rw [perform_eq, hplan]
    exact ⟨_, _, Call.runs_single_iff.mpr ⟨.ok (.ok .null), rfl, rfl⟩⟩
  constructor
  · obtain ⟨log, outcome, h⟩ := hrun (call (task (some "table")) own) own rfl
    obtain ⟨sent, reply, rfl, hsent⟩ := (requests_in_context _ h).2 own rfl
    refine ⟨sent, reply, outcome, h, hsent.database, hsent.table, ?_, ?_⟩
    · rw [hsent.token]
      rfl
    · rw [hsent.others "id_array" (by decide) fun _ => rfl]
      rfl
  · obtain ⟨log, outcome, h⟩ := hrun (delete ⟨task none, ["7", "3", "7"]⟩) _ rfl
    obtain ⟨sent, reply, rfl, hsent⟩ := (requests_in_context _ h).2 _ rfl
    refine ⟨sent, reply, outcome, h, ?_, hsent.ids _ rfl⟩
    rw [hsent.token]
    rfl

end Operation

end RemoteTable
