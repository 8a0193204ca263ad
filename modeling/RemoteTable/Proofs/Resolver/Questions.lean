import RemoteTable.Proofs.Cache.Sequential
import RemoteTable.Proofs.Exchange
import RemoteTable.Resolver

/-!
# Questions to a resolver

A resolver is asked for the projects, for the database of a file and for entries (`Resolver.ask`). The
projects and every entry go through a cache: a stored value answers at once, and else what is found ends
the lookup.
-/

namespace RemoteTable

/-! ## Answers from the caches -/

namespace Resolve

variable (caches : ResolverCaches)

/-- A question that the projects' cache answers is not put to anybody. -/
theorem run_throughProjects_of_some {find : Resolve (List Project)}
    {projects : Cache Unit (List Project) Error} {l : LookupId}
    {found : Except Error (List Project)}
    (h : caches.projects.beginLookup () = (projects, l, some found)) :
    (throughProjects find).run.run caches = pure (found, { caches with projects }) := by
  simp [throughProjects, h]

/-- A question that the projects' cache does not answer ends its lookup with what is found. -/
theorem run_throughProjects_of_none {find : Resolve (List Project)}
    {projects : Cache Unit (List Project) Error} {l : LookupId}
    (h : caches.projects.beginLookup () = (projects, l, none)) :
    (throughProjects find).run.run caches =
      find.run.run { caches with projects } >>= fun after =>
        pure (after.1, { after.2 with projects := after.2.projects.endLookup l after.1 }) := by
  simp [throughProjects, h]

/-- A question that the entries' cache answers is not put to anybody. -/
theorem run_throughEntries_of_some {key : EntryKey} {find : Resolve Entry}
    {entries : Cache EntryKey Entry Error} {l : LookupId} {found : Except Error Entry}
    (h : caches.entries.beginLookup key = (entries, l, some found)) :
    (throughEntries key find).run.run caches = pure (found, { caches with entries }) := by
  simp [throughEntries, h]

/-- A question that the entries' cache does not answer ends its lookup with what is found. -/
theorem run_throughEntries_of_none {key : EntryKey} {find : Resolve Entry}
    {entries : Cache EntryKey Entry Error} {l : LookupId}
    (h : caches.entries.beginLookup key = (entries, l, none)) :
    (throughEntries key find).run.run caches =
      find.run.run { caches with entries } >>= fun after =>
        pure (after.1, { after.2 with entries := after.2.entries.endLookup l after.1 }) := by
  simp [throughEntries, h]

end Resolve

/-! ## Questions -/

namespace Resolver

/-- What a resolver can be asked. -/
inductive Question where
  /-- The active projects. -/
  | projects
  /-- The database of a file. -/
  | database (filename : String)
  /-- The entry of a pipeline for a file, in the table of shots. -/
  | entry (filename pipeline : String)
  /-- The entry that answers a question. -/
  | entryIn (key : EntryKey)

/-- What a resolver answers. -/
inductive Answer where
  /-- Some projects. -/
  | projects (projects : List Project)
  /-- The name of a database. -/
  | database (name : String)
  /-- An entry. -/
  | entry (entry : Entry)

/-- Puts a question to a resolver. -/
def ask (r : Resolver) : Question → Resolve Answer
  | .projects => return .projects (← r.projects)
  | .database filename => return .database (← r.database filename)
  | .entry filename pipeline => return .entry (← r.entry filename pipeline)
  | .entryIn key => return .entry (← r.entryIn key)

end Resolver

end RemoteTable
