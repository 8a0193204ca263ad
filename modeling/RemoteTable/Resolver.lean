import RemoteTable.Cache.Report
import RemoteTable.Cache.Schedule
import RemoteTable.Table
import RemoteTable.Text.FilePath
import RemoteTable.Text.Numeral

/-!
# From file names to entries

A file is named after its shot, behind the prefix of its project. The resolver finds the project's
database by the prefix and the entry of a pipeline by the shot's name. Both the list of projects and
the entries found are kept in caches; entries are cached for the whole question, that is for file
name, pipeline and table.
-/

namespace RemoteTable

/-! ## Names of shots -/

/-- The characters without a version at their end, which is `_v` and one or more digits. -/
def dropVersion (stem : List Char) : List Char :=
  let reversed := stem.reverse
  match reversed.takeWhile isDigit, reversed.dropWhile isDigit with
  | [], _ => stem
  | _, 'v' :: '_' :: rest => rest.reverse
  | _, _ => stem

/-- The name of the shot of a file: the stem of its name without the version. -/
def defaultShotName (filename : String) : String :=
  let path := filename.toList
  String.ofList (dropVersion ((FilePath.stem? path).getD path))

/-- The name of a file without directories; a path that names no file stands for itself. -/
def baseName (filename : String) : String :=
  let path := filename.toList
  String.ofList ((FilePath.fileName? path).getD path)

/-! ## Resolver -/

/-- A project's code and the name of its database. -/
structure Project where
  /-- The code that file names begin with, before the prefix rules. -/
  code : String
  /-- The name of the database. -/
  database : String
deriving DecidableEq, Repr

/-- The question that an entry answers. -/
structure EntryKey where
  /-- The file. -/
  filename : String
  /-- The pipeline. -/
  pipeline : String
  /-- The table that is searched. -/
  table : String
deriving DecidableEq, Repr

/-- The caches of a resolver. -/
structure ResolverCaches where
  /-- The list of projects. -/
  projects : Cache Unit (List Project) Error
  /-- The entries found. -/
  entries : Cache EntryKey Entry Error

namespace ResolverCaches

/-- Caches with nothing in them. -/
def empty (eviction : Eviction) : ResolverCaches :=
  ⟨Cache.empty .never, Cache.empty eviction⟩

end ResolverCaches

/-- How file names are understood. -/
structure Resolver where
  /-- Who asks. -/
  client : Client
  /-- The rules that make a prefix of a project's code, in the order of their use. -/
  prefixRules : List (String → String)
  /-- The rule that finds the name of a shot. -/
  shotName : String → String

/-- A computation of a resolver: it may send requests, use the caches and fail, and the caches
outlive a failure. -/
abbrev Resolve := ExceptT Error (StateT ResolverCaches Exchange)

namespace Resolve

variable {α : Type}

/-- Runs a call that does not use the caches. -/
def ofCall (call : Call α) : Resolve α :=
  ExceptT.mk (StateT.lift call.run)

/-- Answers from the projects' cache, or else with the given computation, whose result is kept. -/
def throughProjects (find : Resolve (List Project)) : Resolve (List Project) :=
  ExceptT.mk do
    let caches ← get
    let (projects, l, answer) := caches.projects.beginLookup ()
    set { caches with projects }
    match answer with
    | some outcome => pure outcome
    | none => do
      let outcome ← find.run
      modify fun caches => { caches with projects := caches.projects.endLookup l outcome }
      pure outcome

/-- Answers from the entries' cache, or else with the given computation, whose result is kept. -/
def throughEntries (key : EntryKey) (find : Resolve Entry) : Resolve Entry :=
  ExceptT.mk do
    let caches ← get
    let (entries, l, answer) := caches.entries.beginLookup key
    set { caches with entries }
    match answer with
    | some outcome => pure outcome
    | none => do
      let outcome ← find.run
      modify fun caches => { caches with entries := caches.entries.endLookup l outcome }
      pure outcome

end Resolve

namespace Resolver

/-- The resolver of a client without prefix rules, for files named after their shots. -/
def ofClient (client : Client) : Resolver :=
  ⟨client, [], defaultShotName⟩

/-- The text that describes a resolver with its cache of entries. -/
def describe (r : Resolver) (entries : Cache EntryKey Entry Error) : String :=
  "EntryResolver \x7b client: " ++ r.client.describe ++ ", prefix_filters: " ++
    decimalText r.prefixRules.length ++ ", entries: " ++ entries.describe ++ " \x7d"

/-- The prefix of a project's code: the rules are used one after the other. -/
def codePrefix (r : Resolver) (code : String) : String :=
  r.prefixRules.foldl (fun text rule => rule text) code

/-- Asks for the active projects. -/
def loadProjects (r : Resolver) : Call (List Project) := do
  let selection ← (PublicTable.projects r.client).all
  let result ← selection.getFields ["code", "database"]
  return result.rows.map fun row =>
    ⟨(row[0]?.getD Datum.null).plain, (row[1]?.getD Datum.null).plain⟩

/-- The active projects, asked for once. -/
def projects (r : Resolver) : Resolve (List Project) :=
  Resolve.throughProjects (Resolve.ofCall r.loadProjects)

/-- Whether a project's prefix begins the name of a file. -/
def matchesFile (r : Resolver) (name : String) (project : Project) : Bool :=
  (r.codePrefix project.code).toList.isPrefixOf name.toList

/-- The first project whose prefix begins the name of a file. -/
def projectOf? (r : Resolver) (filename : String) (projects : List Project) : Option Project :=
  projects.find? (r.matchesFile (baseName filename))

/-- The database of a file. -/
def database (r : Resolver) (filename : String) : Resolve String := do
  match r.projectOf? filename (← r.projects) with
  | some project => pure project.database
  | none => throw (.cannotDetermineTarget filename)

/-- The filters that an entry of a pipeline and a shot passes. -/
def entryFilters (pipeline shot : String) : FilterChain :=
  (FilterChain.single ((Field.ofName "pipeline").equal (.string pipeline))).and
    ((Field.ofName "shot.shot").equal (.string shot))

/-- Asks for the entry in a database. -/
def findEntry (r : Resolver) (key : EntryKey) (database : String) : Call Entry := do
  let table := (r.client.database database).table key.table
  let selection ← table.filter (entryFilters key.pipeline (r.shotName key.filename))
  selection.toEntry (r.client.account.getD "")

/-- The entry that answers a question, asked for once. -/
def entryIn (r : Resolver) (key : EntryKey) : Resolve Entry :=
  Resolve.throughEntries key do
    let database ← r.database key.filename
    Resolve.ofCall (r.findEntry key database)

/-- The entry of a pipeline for a file, in the table of shots. -/
def entry (r : Resolver) (filename pipeline : String) : Resolve Entry :=
  r.entryIn ⟨filename, pipeline, "shot"⟩

end Resolver

end RemoteTable
