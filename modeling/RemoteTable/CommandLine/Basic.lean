/-!
# Command lines

What a command line asks for: one command, the settings that it overrides, and how the run is
logged. All commands but that for the version are tasks on a database: they name a table, and most
of them name records of it by their identifiers, in the order in which they were given and possibly
repeated.
-/

namespace RemoteTable

/-- The records that a command is about. -/
structure Target where
  /-- The table of the records. -/
  table : String
  /-- The identifiers of the records. -/
  ids : List String
deriving DecidableEq, Repr

/-- Something to do on a database. Filters and assignments are kept as they were written. -/
inductive Task where
  /-- Lists the identifiers of the records that a filter matches. -/
  | find (table filter : String)
  /-- Shows fields of records. -/
  | get (target : Target) (fields : List String)
  /-- Writes fields of records. -/
  | set (target : Target) (assignments : List String)
  /-- Deletes records; `force` leaves the question out. -/
  | delete (target : Target) (force : Bool)
  /-- Shows the history of records, or only how long it is. -/
  | history (target : Target) (filter : Option String) (count : Bool)
  /-- Lists the pipelines of a table. -/
  | pipelines (table : String)
deriving DecidableEq, Repr

/-- What the program is asked to do. -/
inductive Command where
  /-- Shows the version of the program. -/
  | version
  /-- Does something on a database. -/
  | task (task : Task)
deriving DecidableEq, Repr

/-- A command line that was understood. What was not given is absent. -/
structure CommandLine where
  /-- What to do. -/
  command : Command
  /-- The document of settings. -/
  settingsPath : Option String
  /-- The address of the server. -/
  serverUrl : Option String
  /-- The token of the caller. -/
  token : Option String
  /-- The database. -/
  database : Option String
  /-- The account of the caller. -/
  account : Option String
  /-- The directory of the log files. -/
  logDirectory : Option String
  /-- How much is logged. -/
  logLevel : Option String
  /-- Whether the log is without colours. -/
  noColor : Bool
deriving DecidableEq, Repr

/-- Why a command line is not carried out. -/
inductive Refusal where
  /-- It is not understood. -/
  | usage
  /-- It asks how the program is used. -/
  | help
  /-- It asks for the version by an option. -/
  | version
deriving DecidableEq, Repr

namespace Refusal

/-- The exit code of a run that ends with the refusal: only a command line that is not understood
is a failure. -/
def exitCode : Refusal → Nat
  | usage => 2
  | help | version => 0

end Refusal

namespace CommandLine

/-- The name of the program. -/
def programName : String := "tablink"

/-- The version of the program. -/
def programVersion : String := "0.4.0"

/-- The line that tells the version. -/
def versionLine : String :=
  programName ++ " " ++ programVersion ++ "\n"

/-- How much is logged unless it is said. -/
def defaultLogLevel : String := "warn"

/-- The variable of the environment that says how much is logged. -/
def logLevelVariable : String := "RUST_LOG"

/-- How much is logged: what the command line says, else what the environment says, else the
default. -/
def level (c : CommandLine) (environment : List (String × String)) : String :=
  (c.logLevel.or (environment.lookup logLevelVariable)).getD defaultLogLevel

/-- The levels at which only failures of the program itself are logged. -/
def quietLevels : List String := ["error", "ERROR", "1"]

/-- Whether failed requests are logged. -/
def logsFailures (c : CommandLine) (environment : List (String × String)) : Bool :=
  !quietLevels.contains (c.level environment)

end CommandLine

end RemoteTable
