import RemoteTable.CommandLine.Arguments
import RemoteTable.CommandLine.Plan
import RemoteTable.Network
import Std.Internal.UV.System
import Std.Time.DateTime

/-!
# The program

Reads the command line and its surroundings, carries the plan out, and shows what comes of it.
-/

namespace RemoteTable

namespace Program

/-- Today's date. -/
def today : IO String := do
  let seconds := (← Std.Time.Timestamp.now).toSecondsSinceUnixEpoch.val
  let date := Std.Time.PlainDate.ofEpochDay ⟨seconds / 86400⟩
  let two (n : Int) : String := if n < 10 then "0" ++ integerText n else integerText n
  return "-".intercalate [integerText date.year.toInt, two date.month.val, two date.day.val]

/-- Opens the log file of the day in a directory, which is created if it is missing. -/
def openLog (directory : String) : IO IO.FS.Handle := do
  IO.FS.createDirAll directory
  let name := CommandLine.programName ++ ".log." ++ (← today)
  IO.FS.Handle.mk (directory ++ "/" ++ name) IO.FS.Mode.append

/-- Reads the document at a place; its extension may be left out. -/
def readDocument : Option String → IO SettingsFile
  | none => return .notGiven
  | some path => do
    for place in [path, path ++ ".toml"] do
      try
        return .text (← IO.FS.readFile place)
      catch _ => pure ()
    return .missing

/-- The answer to the question of a job. -/
def answerTo : Option String → IO String
  | none => return ""
  | some question => do
    IO.print question
    (← IO.getStdout).flush
    (← IO.getStdin).getLine

/-- Carries a plan out. -/
def carryOut : Plan → IO (Except Error String)
  | .text shown => return .ok shown
  | .work settings job => do
    let answer ← answerTo job.question?
    let deliver := Network.deliver settings.timeoutSecs
    (job.run answer).run.run (Http.post deliver settings.serverUrl)

/-- Runs a command line that was understood. -/
def run (c : CommandLine) (log : Option IO.FS.Handle) : IO UInt32 := do
  let environment := (← Std.Internal.UV.System.osEnviron).toList
  let result : Except CommandFailure String ←
    match c.plan (← readDocument c.settingsPath) environment with
    | .error failure => pure (.error failure)
    | .ok plan => pure ((← carryOut plan).mapError .operation)
  match result with
  | .ok shown =>
    IO.print shown
    return 0
  | .error failure =>
    if let some file := log then
      if c.logsFailures environment then file.putStrLn failure.message
    IO.eprintln ("Error: " ++ failure.message)
    return UInt32.ofNat CommandFailure.exitCode

/-- Runs a command line that was understood, with a log file if it asks for one. -/
def start (c : CommandLine) : IO UInt32 := do
  try
    run c (← c.logDirectory.mapM openLog)
  catch e =>
    IO.eprintln ("Error: " ++ toString e)
    return UInt32.ofNat CommandFailure.exitCode

/-- Ends the run of a command line that is not carried out. -/
def refuse (refusal : Refusal) : IO UInt32 := do
  match refusal with
  | .usage => IO.eprint CommandLine.usageText
  | .help => IO.print CommandLine.usageText
  | .version => IO.print CommandLine.versionLine
  return UInt32.ofNat refusal.exitCode

end Program

end RemoteTable

/-- Runs the program with its arguments. -/
def main (arguments : List String) : IO UInt32 := do
  match RemoteTable.CommandLine.ofArguments arguments with
  | .error refusal => RemoteTable.Program.refuse refusal
  | .ok c => RemoteTable.Program.start c
