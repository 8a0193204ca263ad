import RemoteTable.Proofs.Resolver.Requests
import RemoteTable.Proofs.Text.FilePath

/-!
# Databases of files

A file is in the database of the first project whose code, with the prefix rules folded over it, begins
the name of the file, in the order in which the projects are listed (`Resolver.Locates`). A question for
the database of a file is answered so, with the projects that are known or loaded, and it fails if no
project qualifies (`Resolver.database_by_prefix`). Neither the directories of the file, nor projects
behind the one that is found, nor projects that do not qualify make a difference.
-/

namespace RemoteTable

/-! ## Names of files -/

/-- Whether a text is what prefixes are compared with: the name of the file, or the whole path if this
does not end in the name of a file. -/
inductive HasBaseName (filename : String) : (name : String) → Prop
  /-- The path ends in a name. -/
  | ofName {name : String} (hname : FilePath.EndsIn filename.toList name.toList) :
    HasBaseName filename name
  /-- The path ends in no name. -/
  | ofPath (hname : ∀ name, ¬ FilePath.EndsIn filename.toList name) : HasBaseName filename filename

/-- The program finds the name that a file has behind its directories. -/
theorem hasBaseName_iff {filename name : String} :
    HasBaseName filename name ↔ baseName filename = name := by
  rw [baseName, ← String.toList_inj, String.toList_ofList]
  constructor
  · rintro (⟨hname⟩ | ⟨hname⟩)
    · rw [FilePath.fileName?_eq_some_iff.mpr hname]
      rfl
    · rw [FilePath.fileName?_eq_none_iff.mpr hname]
      rfl
  · intro h
    cases hname : FilePath.fileName? filename.toList with
    | some found =>
      rw [hname] at h
      obtain rfl : found = name.toList := h
      exact .ofName (FilePath.fileName?_eq_some_iff.mp hname)
    | none =>
      rw [hname] at h
      obtain rfl : filename = name := String.toList_inj.mp h
      exact .ofPath (FilePath.fileName?_eq_none_iff.mp hname)

namespace Resolver

variable {r : Resolver} {filename name : String} {projects : List Project}
  {outcome : Except Error String}

/-! ## The first project -/

/-- Whether the prefix of a project begins the name of a file. The prefix is made of the code of the
project by the rules, one after the other. -/
def Qualifies (r : Resolver) (name : String) (project : Project) : Prop :=
  ∃ rest, name = r.prefixRules.foldl (fun text rule => rule text) project.code ++ rest

/-- Where projects locate a file. -/
inductive Locates (r : Resolver) (filename : String) : List Project → Except Error String → Prop
  /-- It is in the database of the first project whose prefix begins its name. -/
  | found {name : String} {before after : List Project} {project : Project}
    (hname : HasBaseName filename name) (hbefore : ∀ p ∈ before, ¬ r.Qualifies name p)
    (hproject : r.Qualifies name project) :
    Locates r filename (before ++ project :: after) (.ok project.database)
  /-- It is nowhere if there is no such project. -/
  | missing {name : String} {projects : List Project} (hname : HasBaseName filename name)
    (hnone : ∀ p ∈ projects, ¬ r.Qualifies name p) :
    Locates r filename projects (.error (.cannotDetermineTarget filename))

/-- The program asks of a project whether its prefix begins the name. -/
theorem matchesFile_iff {project : Project} :
    r.matchesFile name project = true ↔ r.Qualifies name project := by
  rw [matchesFile, List.isPrefixOf_iff_prefix, Qualifies, codePrefix]
  constructor
  · rintro ⟨rest, hrest⟩
    refine ⟨String.ofList rest, ?_⟩
    rw [← String.toList_inj, String.toList_append, String.toList_ofList, hrest]
  · rintro ⟨rest, hrest⟩
    refine ⟨rest.toList, ?_⟩
    rw [hrest, String.toList_append]

/-- The project that is found is the first one whose prefix begins the name. -/
theorem projectOf?_eq_some_iff (hname : HasBaseName filename name) {project : Project} :
    r.projectOf? filename projects = some project ↔ r.Qualifies name project ∧
      ∃ before after, projects = before ++ project :: after ∧ ∀ p ∈ before, ¬ r.Qualifies name p := by
  rw [projectOf?, hasBaseName_iff.mp hname, List.find?_eq_some_iff_append, matchesFile_iff]
  simp only [Bool.not_eq_true', Bool.eq_false_iff, ne_eq, matchesFile_iff]

theorem projectOf?_eq_none_iff (hname : HasBaseName filename name) :
    r.projectOf? filename projects = none ↔ ∀ p ∈ projects, ¬ r.Qualifies name p := by
  rw [projectOf?, hasBaseName_iff.mp hname, List.find?_eq_none]
  simp only [matchesFile_iff]

/-- The projects are searched for the first one that qualifies. -/
theorem locates_iff : r.Locates filename projects outcome ↔ outcome = r.locate filename projects := by
  unfold locate
  constructor
  · rintro (⟨hname, hbefore, hproject⟩ | ⟨hname, hnone⟩)
    · rw [(projectOf?_eq_some_iff hname).mpr ⟨hproject, _, _, rfl, hbefore⟩]
    · rw [(projectOf?_eq_none_iff hname).mpr hnone]
  · have hname : HasBaseName filename (baseName filename) := hasBaseName_iff.mpr rfl
    rintro rfl
    cases hfind : r.projectOf? filename projects with
    | some project =>
      obtain ⟨hproject, before, after, rfl, hbefore⟩ := (projectOf?_eq_some_iff hname).mp hfind
      exact .found hname hbefore hproject
    | none => exact .missing hname ((projectOf?_eq_none_iff hname).mp hfind)

/-! ## What makes no difference -/

/-- The directories of a file do not matter. -/
theorem locates_ok_of_endsIn {filename' : String} {last : List Char} {database : String}
    (h : FilePath.EndsIn filename.toList last) (h' : FilePath.EndsIn filename'.toList last)
    (hlocates : r.Locates filename projects (.ok database)) :
    r.Locates filename' projects (.ok database) := by
  cases hlocates with
  | found hname hbefore hproject =>
    refine .found (.ofName ?_) hbefore hproject
    cases hname with
    | ofName hname => rwa [hname.unique h]
    | ofPath hname => exact absurd h (hname last)

/-- Projects behind the one that is found do not matter. -/
theorem Locates.append {database : String} (h : r.Locates filename projects (.ok database))
    (more : List Project) : r.Locates filename (projects ++ more) (.ok database) := by
  cases h with
  | found hname hbefore hproject =>
    rw [List.append_assoc]
    exact .found hname hbefore hproject

/-- Projects that do not qualify do not matter. -/
theorem locates_insert_iff {front extra back : List Project} (hname : HasBaseName filename name)
    (h : ∀ p ∈ extra, ¬ r.Qualifies name p) :
    r.Locates filename (front ++ extra ++ back) outcome ↔ r.Locates filename (front ++ back) outcome := by
  have hextra : r.projectOf? filename extra = none := (projectOf?_eq_none_iff hname).mpr h
  have hfind : r.projectOf? filename (front ++ extra ++ back) = r.projectOf? filename (front ++ back) := by
    unfold projectOf? at hextra ⊢
    rw [List.find?_append, List.find?_append, List.find?_append, hextra, Option.or_none]
  rw [locates_iff, locates_iff, locate, locate, hfind]

/-! ## Questions for a database -/

variable {α : Type} {rest : List Project → Call α} {log : Transcript} {caches : ResolverCaches}

/-- A computation that uses the projects goes as the call that it comes to with them. -/
theorem UsesProjects.exists_runs_iff {x : Resolve α} (hx : r.UsesProjects x rest)
    (hidle : caches.projects.pending = []) {outcome : Except Error α} :
    (∃ caches', x.Runs caches log outcome caches') ↔
      (r.projectsFrom caches.listed? >>= rest).Runs log outcome := by
  have hcall : ∀ log (behind : Except Error α × ResolverCaches),
      Exchange.Runs (x.run.run caches) log behind →
        (r.projectsFrom caches.listed? >>= rest).Runs log behind.1 :=
    fun log behind hruns => (hx caches log behind.1 behind.2 hidle hruns).1.runs
  constructor
  · rintro ⟨caches', hruns⟩
    exact hcall log (outcome, caches') hruns
  · intro h
    obtain ⟨⟨_, caches'⟩, hruns, rfl⟩ := Exchange.exists_runs_of_map hcall h
    exact ⟨caches', hruns⟩

/-- How a question for the database of a file goes. -/
inductive AnswersDatabase (r : Resolver) (filename : String) (known? : Option (List Project)) :
    Transcript → Except Error String → Prop
  /-- The projects are known or loaded, and they locate the file. -/
  | located {log : Transcript} {projects : List Project} {outcome : Except Error String}
    (hload : (r.projectsFrom known?).Runs log (.ok projects))
    (hlocates : r.Locates filename projects outcome) : AnswersDatabase r filename known? log outcome
  /-- The load of the projects fails. -/
  | unlisted {log : Transcript} {e : Error} (hload : (r.projectsFrom known?).Runs log (.error e)) :
    AnswersDatabase r filename known? log (.error e)

/-- A question for a database brings the projects and locates the file among them. -/
theorem answersDatabase_iff {known? : Option (List Project)} :
    r.AnswersDatabase filename known? log outcome ↔
      ∃ found, (r.projectsFrom known?).Runs log found ∧ outcome = found >>= r.locate filename := by
  constructor
  · rintro (⟨hload, hlocates⟩ | ⟨hload⟩)
    · exact ⟨_, hload, locates_iff.mp hlocates⟩
    · exact ⟨_, hload, rfl⟩
  · rintro ⟨_ | projects, hload, rfl⟩
    · exact .unlisted hload
    · exact .located hload (locates_iff.mpr rfl)

/-- How a load that succeeds brings projects: they are those of the rows of the reply to its read, in
their order. -/
inductive BringsProjects : Transcript → List Project → Prop
  /-- The search lists identifiers, and the read of their codes and databases lists rows. -/
  | rows {search read : Request} {reply : Reply} {ids : List String} {response : Response}
    {rows : List (List Datum)} (hsearch : SearchesProjects search) (hids : ListsIds reply ids)
    (hread : ReadsProjects ids read) (hrows : response.CarriesRows 2 rows) :
    BringsProjects [(search, reply), (read, .ok response)] (rows.map projectOfRow)

/-- A load brings the projects that its replies tell. -/
theorem bringsProjects_of_runs (h : r.loadProjects.Runs log (.ok projects)) :
    BringsProjects log projects := by
  obtain ⟨reply, ids, response, rows, hids, hrows, rfl, rfl⟩ := runs_loadProjects_ok_iff.mp h
  exact .rows r.searchesProjects_projectsSearch hids (r.readsProjects_projectsRead ids) hrows

/-- The database of a file is that of the first project whose prefix begins the name of the file:

* a question for it goes by the projects that are known or loaded, whatever is replied, and these locate
  the file or do not, in one way;
* the projects are loaded in the order of the reply, and every list of them can be;
* the directories in front of the name of the file, projects behind the one that is found, and projects
  anywhere that do not qualify make no difference. -/
theorem database_by_prefix (r : Resolver) (filename : String) :
    (∀ caches log outcome, caches.projects.pending = [] →
      ((∃ caches', (r.database filename).Runs caches log outcome caches') ↔
        r.AnswersDatabase filename caches.listed? log outcome)) ∧
    (∀ projects, ∃ outcome, ∀ other, r.Locates filename projects other ↔ other = outcome) ∧
    (∀ log projects, r.loadProjects.Runs log (.ok projects) → BringsProjects log projects) ∧
    (∀ projects, ∃ log, r.loadProjects.Runs log (.ok projects)) ∧
    (∀ filename' last, FilePath.EndsIn filename.toList last → FilePath.EndsIn filename'.toList last →
      ∀ projects database, r.Locates filename projects (.ok database) ↔
        r.Locates filename' projects (.ok database)) ∧
    (∀ projects database more, r.Locates filename projects (.ok database) →
      r.Locates filename (projects ++ more) (.ok database)) ∧
    ∀ front extra back name, HasBaseName filename name → (∀ p ∈ extra, ¬ r.Qualifies name p) →
      ∀ outcome, r.Locates filename (front ++ extra ++ back) outcome ↔
        r.Locates filename (front ++ back) outcome := by
  refine ⟨fun caches log outcome hidle => ?_, fun projects => ⟨_, fun other => locates_iff⟩,
    fun log projects => bringsProjects_of_runs, r.exists_runs_loadProjects, ?_, ?_, ?_⟩
  · rw [(r.usesProjects_database filename).exists_runs_iff hidle, Call.runs_bind_ofExcept_iff,
      answersDatabase_iff]
  · exact fun filename' last h h' projects database =>
      ⟨locates_ok_of_endsIn h h', locates_ok_of_endsIn h' h⟩
  · exact fun projects database more h => h.append more
  · exact fun front extra back name hname h outcome => locates_insert_iff hname h

/-- A file in a directory, with a rule that puts an underscore behind codes. The database is found with
the projects that are loaded. It is the same for the file alone, with a project in front whose prefix is
too long, and with one behind that qualifies too. -/
theorem underscored_database_by_prefix :
    let r : Resolver := { ofClient ⟨none, none⟩ with prefixRules := [fun code => code ++ "_"] }
    let file := "/shots/SNJ_sc001.nk/"
    (∃ log caches', (r.database file).Runs (.empty .never) log (.ok "film") caches') ∧
      r.Locates "SNJ_sc001.nk" [⟨"SNJ_sc001.nk", "other"⟩, ⟨"SNJ", "film"⟩, ⟨"SNJ", "later"⟩]
        (.ok "film") := by
  intro r file
  obtain ⟨hruns, -, -, hload, hdirectories, happend, hinsert⟩ := database_by_prefix r file
  have hlocates : r.Locates file [⟨"SNJ", "film"⟩] (.ok "film") := locates_iff.mpr (by decide)
  constructor
  · obtain ⟨log, hlog⟩ := hload [⟨"SNJ", "film"⟩]
    exact ⟨log, (hruns (.empty .never) log _ rfl).mpr (.located hlog hlocates)⟩
  · have hends : ∀ path, FilePath.fileName? path = some "SNJ_sc001.nk".toList →
        FilePath.EndsIn path "SNJ_sc001.nk".toList := fun path => FilePath.fileName?_eq_some_iff.mp
    rw [← hdirectories "SNJ_sc001.nk" _ (hends _ (by decide)) (hends _ (by decide))]
    have hlong : ∀ p ∈ [(⟨"SNJ_sc001.nk", "other"⟩ : Project)], ¬ r.Qualifies "SNJ_sc001.nk" p := by
      intro p hp
      rw [List.mem_singleton.mp hp, ← matchesFile_iff]
      decide
    have hbehind := happend _ _ [⟨"SNJ", "later"⟩] hlocates
    exact (hinsert [] _ _ _ (hasBaseName_iff.mpr (by decide)) hlong _).mpr hbehind

end Resolver

end RemoteTable
