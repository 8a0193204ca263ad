import RemoteTable.Proofs.Operation.Course
import RemoteTable.Proofs.Resolver.Questions

/-!
# Courses of public tables and of a resolver

What is composed of operations follows the composed courses: the active records of a public table and
their names, the load of the projects, and the search for an entry. A question to a resolver is a load
of the projects, unless they are known, and what is done with them (`Resolver.answerWith`).
-/

namespace RemoteTable

/-! ## Public tables -/

namespace PublicTable

variable (p : PublicTable)

/-- The course of the search for the active records. -/
def allCourse : Course Selection :=
  (Operation.filter p.table p.active).course

/-- The course of the names of the active records: the search, and a read of the field that names
them. -/
def namesCourse : Course (List String) :=
  p.allCourse.bind fun selection => (Operation.getField selection p.nameField).course.bind fun cells =>
    .done (.ok (cells.map Datum.plain))

/-- The course of a search in a public table. -/
theorem followedBy_allCourse : p.allCourse.FollowedBy p.all :=
  Operation.followedBy_course (.filter p.table p.active)

theorem followedBy_namesCourse : p.namesCourse.FollowedBy p.names :=
  p.followedBy_allCourse.bind fun selection =>
    (Operation.followedBy_course (.getField selection p.nameField)).bind fun _ => .ofExcept (.ok _)

theorem failsOnly_allCourse : p.allCourse.FailsOnly Error.IsExpected :=
  Operation.failsOnly_expected _

theorem failsOnly_namesCourse : p.namesCourse.FailsOnly Error.IsExpected :=
  p.failsOnly_allCourse.bind fun _ => (Operation.failsOnly_expected _).bind fun _ =>
    Course.failsOnly_ok _

end PublicTable

namespace Resolver

variable (r : Resolver) (known? : Option (List Project))

/-! ## Projects -/

/-- The project in a row of the load. -/
def projectOfRow (row : List Datum) : Project :=
  ⟨(row[0]?.getD Datum.null).plain, (row[1]?.getD Datum.null).plain⟩

/-- The course of the load of the projects: the search for the active ones, and a read of their codes
and databases. -/
def loadCourse : Course (List Project) :=
  (PublicTable.projects r.client).allCourse.bind fun selection =>
    (Operation.getFields selection ["code", "database"]).course.bind fun result =>
      .done (.ok (result.rows.map projectOfRow))

/-- The course of a load of the projects. -/
theorem followedBy_loadCourse : r.loadCourse.FollowedBy r.loadProjects :=
  (PublicTable.projects r.client).followedBy_allCourse.bind fun selection =>
    (Operation.followedBy_course (.getFields selection ["code", "database"])).bind fun _ =>
      .ofExcept (.ok _)

/-- The projects that are known, or else loaded. -/
def projectsFrom : Call (List Project) :=
  match known? with
  | some projects => pure projects
  | none => r.loadProjects

/-- The course of the projects: nothing is asked if they are known. -/
def projectsCourse : Course (List Project) :=
  match known? with
  | some projects => .done (.ok projects)
  | none => r.loadCourse

/-- Known projects take no request, and unknown ones are loaded. -/
theorem followedBy_projectsCourse : (r.projectsCourse known?).FollowedBy (r.projectsFrom known?) := by
  cases known? with
  | some projects => exact .ofExcept (.ok projects)
  | none => exact r.followedBy_loadCourse

/-! ## Answers -/

/-- The database of a file, given the projects. -/
def locate (filename : String) (projects : List Project) : Except Error String :=
  match r.projectOf? filename projects with
  | some project => .ok project.database
  | none => .error (.cannotDetermineTarget filename)

/-- The entry that answers a question, given the projects. -/
def findEntryWith (key : EntryKey) (projects : List Project) : Call Entry := do
  r.findEntry key (← Call.ofExcept (r.locate key.filename projects))

/-- The answer to a question, given the projects. -/
def answerWith : Question → List Project → Call Answer
  | .projects, projects => pure (.projects projects)
  | .database filename, projects => return .database (← Call.ofExcept (r.locate filename projects))
  | .entry filename pipeline, projects =>
    return .entry (← r.findEntryWith ⟨filename, pipeline, "shot"⟩ projects)
  | .entryIn key, projects => return .entry (← r.findEntryWith key projects)

/-- The course of the search for an entry in a database: the records of the pipeline and the shot, and
then the narrowing to one of them. -/
def searchCourse (key : EntryKey) (database : String) : Course Entry :=
  (Operation.filter ((r.client.database database).table key.table)
      (entryFilters key.pipeline (r.shotName key.filename))).course.bind fun selection =>
    (Operation.toEntry selection (r.client.account.getD "")).course

/-- The course of an entry, given the projects. -/
def entryCourse (key : EntryKey) (projects : List Project) : Course Entry :=
  (Course.done (r.locate key.filename projects)).bind (r.searchCourse key)

/-- The course of an answer, given the projects. -/
def answerCourse : Question → List Project → Course Answer
  | .projects, projects => .done (.ok (.projects projects))
  | .database filename, projects =>
    (Course.done (r.locate filename projects)).bind fun database => .done (.ok (.database database))
  | .entry filename pipeline, projects =>
    (r.entryCourse ⟨filename, pipeline, "shot"⟩ projects).bind fun entry => .done (.ok (.entry entry))
  | .entryIn key, projects => (r.entryCourse key projects).bind fun entry => .done (.ok (.entry entry))

theorem followedBy_searchCourse (key : EntryKey) (database : String) :
    (r.searchCourse key database).FollowedBy (r.findEntry key database) :=
  (Operation.followedBy_course (.filter _ _)).bind fun selection =>
    Operation.followedBy_course (.toEntry selection _)

/-- The search for an entry goes on where the database is found. -/
theorem followedBy_entryCourse (key : EntryKey) (projects : List Project) :
    (r.entryCourse key projects).FollowedBy (r.findEntryWith key projects) :=
  (Course.FollowedBy.ofExcept _).bind (r.followedBy_searchCourse key)

/-- The course of the answer to a question, once the projects are there. -/
theorem followedBy_answerCourse (question : Question) (projects : List Project) :
    (r.answerCourse question projects).FollowedBy (r.answerWith question projects) := by
  cases question with
  | projects => exact .ofExcept (.ok _)
  | database filename => exact (Course.FollowedBy.ofExcept _).bind fun _ => .ofExcept (.ok _)
  | entry filename pipeline =>
    exact (r.followedBy_entryCourse ⟨filename, pipeline, "shot"⟩ projects).bind fun _ =>
      .ofExcept (.ok _)
  | entryIn key => exact (r.followedBy_entryCourse key projects).bind fun _ => .ofExcept (.ok _)

/-! ## Failures -/

/-- The projects fail in the expected ways only. -/
theorem failsOnly_projectsCourse : (r.projectsCourse known?).FailsOnly Error.IsExpected := by
  cases known? with
  | some projects => exact Course.failsOnly_ok projects
  | none =>
    exact (PublicTable.failsOnly_allCourse _).bind fun _ =>
      (Operation.failsOnly_expected _).bind fun _ => Course.failsOnly_ok _

/-- Among known projects there is one way to fail. -/
theorem error_of_locate {filename : String} {projects : List Project} {e : Error}
    (h : r.locate filename projects = .error e) : e = .cannotDetermineTarget filename := by
  unfold locate at h
  split at h <;> cases h
  rfl

theorem failsOnly_locate (filename : String) (projects : List Project) :
    (Course.done (r.locate filename projects)).FailsOnly Error.IsExpected := by
  intro e h
  rw [r.error_of_locate h]
  exact .cannotDetermineTarget filename

theorem failsOnly_entryCourse (key : EntryKey) (projects : List Project) :
    (r.entryCourse key projects).FailsOnly Error.IsExpected :=
  (r.failsOnly_locate key.filename projects).bind fun _ =>
    (Operation.failsOnly_expected _).bind fun _ => Operation.failsOnly_expected _

theorem failsOnly_answerCourse (question : Question) (projects : List Project) :
    (r.answerCourse question projects).FailsOnly Error.IsExpected := by
  cases question with
  | projects => exact Course.failsOnly_ok _
  | database filename => exact (r.failsOnly_locate filename projects).bind fun _ => Course.failsOnly_ok _
  | entry | entryIn => exact (r.failsOnly_entryCourse _ projects).bind fun _ => Course.failsOnly_ok _

end Resolver

end RemoteTable
