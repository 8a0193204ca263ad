import RemoteTable.CommandLine.Basic
import RemoteTable.Json.Reader
import RemoteTable.Settings.Layers
import RemoteTable.Table

/-!
# Plans

What a command line leads to, before anything is sent: a text to show, or a job for the server. All
that can go wrong without the server goes wrong here: settings that cannot be read, a database that
is not named, a filter or an assignment that is not understood. A job is one operation and the text
that shows its result; a job that cannot be undone has a question, and does nothing unless the
answer is yes.
-/

namespace RemoteTable

/-- Why a command fails. -/
inductive CommandFailure where
  /-- A filter is not JSON. -/
  | filterNotJson (text : String)
  /-- An assignment lacks its equals sign. -/
  | notAnAssignment (text : String)
  /-- No database is named anywhere. -/
  | noDatabase
  /-- An operation of the library fails. -/
  | operation (error : Error)
deriving DecidableEq, Repr

namespace CommandFailure

/-- The text shown for a failure. -/
def message : CommandFailure → String
  | filterNotJson text => "Filter is not JSON: " ++ text
  | notAnAssignment text => "Expected field=value, got '" ++ text ++ "'"
  | noDatabase => "No database given; use --database or set it in the configuration"
  | operation error => error.message

/-- The exit code of a run that fails. -/
def exitCode : Nat := 1

end CommandFailure

/-! ## Filters and assignments -/

/-- The filters that a text describes. -/
def readFilter (text : String) : Except CommandFailure FilterChain :=
  match Json.ofText? text with
  | none => .error (.filterNotJson text)
  | some value => (FilterChain.parse value).mapError .operation

/-- The value that a text stands for: the JSON value it describes, or else itself. -/
def readValue (text : String) : Datum :=
  match Json.ofText? text with
  | some value => Datum.ofJson value
  | none => .string text

/-- The field and the value that a text assigns to it, in front of and behind its first equals
sign. -/
def readAssignment (text : String) : Except CommandFailure (String × Datum) :=
  match text.toList.dropWhile (· ≠ '=') with
  | [] => .error (.notAnAssignment text)
  | _ :: value =>
    .ok (String.ofList (text.toList.takeWhile (· ≠ '=')), readValue (String.ofList value))

/-! ## Jobs -/

/-- Something to do with the server. -/
structure Job where
  /-- What has to be answered with yes before anything is done. -/
  question? : Option String
  /-- The operation, with the text to show in the end. -/
  call : Call String

namespace Job

/-- A job without a question. -/
def ofCall (call : Call String) : Job :=
  ⟨none, call⟩

/-- Whether an answer is yes, in any letter case and with blanks around it. -/
def isYes (answer : String) : Bool :=
  RawSetting.lowerName (trimBlanks answer.toList) == "yes"

/-- What is done when the question, if there is one, is answered. -/
def run (job : Job) (answer : String) : Call String :=
  if job.question?.isSome && !isYes answer then pure "" else job.call

end Job

/-- Texts as lines. -/
def lines (texts : List String) : String :=
  String.join (texts.map (· ++ "\n"))

/-- Cells as a line with tabs between them. -/
def tabbed (cells : List String) : String :=
  "\t".intercalate cells

/-- The lines that show a result set: the names of the columns, then the rows. -/
def ResultSet.sheet (r : ResultSet) : String :=
  lines (tabbed r.columns :: r.rows.map fun row => tabbed (row.map Datum.plain))

/-- The line that shows a history record. -/
def HistoryRecord.line (h : HistoryRecord) : String :=
  tabbed [h.time, h.step, h.status, h.createBy, h.text]

/-- The line that tells how many records something was done to. -/
def countLine (done : String) (ids : List String) : String :=
  lines [done ++ " " ++ decimalText ids.length ++ " record(s)"]

/-- The question before records are deleted. -/
def deleteQuestion (target : Target) : String :=
  "Delete " ++ decimalText target.ids.length ++ " record(s) from '" ++ target.table ++
    "'? (yes/no): "

namespace Target

/-- The records in a database. -/
def select (target : Target) (d : Database) : Selection :=
  (d.table target.table).select target.ids

end Target

namespace Task

/-- The job of listing the identifiers that filters match. -/
def findJob (d : Database) (table : String) (filters : FilterChain) : Job :=
  .ofCall do return lines (← (d.table table).filter filters).ids

/-- The job of showing fields. -/
def getJob (d : Database) (target : Target) (fields : List String) : Job :=
  .ofCall do return (← (target.select d).getFields fields).sheet

/-- The job of writing fields. -/
def setJob (d : Database) (target : Target) (values : List (String × Datum)) : Job :=
  .ofCall do
    (target.select d).setFields values
    return countLine "Updated" target.ids

/-- The job of deleting records. -/
def deleteJob (d : Database) (target : Target) (force : Bool) : Job :=
  { question? := if force then none else some (deleteQuestion target)
    call := do
      (target.select d).delete
      return countLine "Deleted" target.ids }

/-- The job of showing the history of records. -/
def historyJob (d : Database) (target : Target) (extra : Option FilterChain) : Job :=
  .ofCall do return lines ((← (target.select d).historyRecords extra).map HistoryRecord.line)

/-- The job of counting the history of records. -/
def historyCountJob (d : Database) (target : Target) (extra : Option FilterChain) : Job :=
  .ofCall do return lines [decimalText (← (target.select d).historyCount extra)]

/-- The job of listing pipelines. -/
def pipelinesJob (d : Database) (table : String) : Job :=
  .ofCall do
    return lines ((← (d.table table).pipelines).map fun p => tabbed [p.id, p.name])

/-- The job of a task on a database. -/
def job (d : Database) : Task → Except CommandFailure Job
  | find table filter => do return findJob d table (← readFilter filter)
  | get target fields => .ok (getJob d target fields)
  | set target assignments => do return setJob d target (← assignments.mapM readAssignment)
  | delete target force => .ok (deleteJob d target force)
  | history target filter count => do
    let extra ← filter.mapM readFilter
    return if count then historyCountJob d target extra else historyJob d target extra
  | pipelines table => .ok (pipelinesJob d table)

end Task

/-! ## Plans -/

/-- What a command line leads to. -/
inductive Plan where
  /-- A text is shown. -/
  | text (text : String)
  /-- A job is done with the server that the settings name. -/
  | work (settings : ClientSettings) (job : Job)

namespace CommandLine

/-- The settings with what the command line says on top of them. -/
def override (c : CommandLine) (s : ClientSettings) : ClientSettings :=
  { s with
    serverUrl := c.serverUrl.getD s.serverUrl
    token := c.token.or s.token
    database := c.database.or s.database
    account := c.account.or s.account }

/-- The settings of a run. -/
def settings (c : CommandLine) (file : SettingsFile) (environment : List (String × String)) :
    Except Error ClientSettings :=
  (ClientSettings.load file environment).map c.override

/-- What a command line leads to with the given document and environment. -/
def plan (c : CommandLine) (file : SettingsFile) (environment : List (String × String)) :
    Except CommandFailure Plan :=
  match c.command with
  | .version => .ok (.text versionLine)
  | .task task => do
    let s ← (c.settings file environment).mapError .operation
    match s.database with
    | none => throw .noDatabase
    | some name => return .work s (← task.job (s.client.database name))

end CommandLine

end RemoteTable
