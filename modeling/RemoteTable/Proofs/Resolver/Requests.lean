import RemoteTable.Proofs.Resolver.Failures

/-!
# Requests of a resolver

A resolver searches for records, and reads what it has found if this is needed (`SearchThen`): the load
of the projects always reads the projects that are found, and the search for an entry reads the records
only to choose among several. With the projects known, a question is answered without a request, or by
the search for its entry (`Resolver.AnsweredBy`), which is never mistaken for a load
(`Resolver.AnsweredBy.not_loadsProjects`).
-/

namespace RemoteTable

/-! ## Requests about records -/

/-- A request about the records of a table: the method, the names of the database and of the table, and
some of the parameters. -/
structure Request.AboutRecords (method database table : String) (params : List (String × Json))
    (sent : Request) : Prop where
  /-- The group of methods for records. -/
  controller : sent.controller = "c_orm"
  /-- The method. -/
  method : sent.method = method
  /-- The database. -/
  database : sent.get? "db" = some (.string database)
  /-- The table. -/
  table : sent.get? "module" = some (.string table)
  /-- The parameters. -/
  params : ∀ name value, (name, value) ∈ params → sent.get? name = some value

namespace Request.AboutRecords

variable {method method' database database' table table' name : String}
  {params params' : List (String × Json)} {value value' : Json} {sent : Request}

/-- A request has one method. -/
theorem method_eq (h : AboutRecords method database table params sent)
    (h' : AboutRecords method' database' table' params' sent) : method = method' :=
  h.method.symm.trans h'.method

theorem param_eq (h : AboutRecords method database table params sent)
    (h' : AboutRecords method' database' table' params' sent) (hmem : (name, value) ∈ params)
    (hmem' : (name, value') ∈ params') : value = value' :=
  Option.some.inj ((h.params name value hmem).symm.trans (h'.params name value' hmem'))

end Request.AboutRecords

namespace Operation

/-- The request of a search asks for the records that pass its filters. -/
theorem aboutRecords_filter (t : Table) (filters : FilterChain) :
    Request.AboutRecords "get_with_filter" t.database.name t.name
      [("sign_filter_array", (t.formatFilters filters).toWire)]
      (t.addressed (t.filterRequest filters)) := by
  have hsent := (filter t filters).inContext_sent (t.filterRequest filters)
  refine ⟨hsent.controller, hsent.method, hsent.database, hsent.table, fun name value hmem => ?_⟩
  obtain ⟨rfl, rfl⟩ := Prod.mk.inj (List.mem_singleton.mp hmem)
  exact hsent.others "sign_filter_array" (by decide) fun _ => rfl

theorem aboutRecords_getFields (s : Selection) (names : List String) :
    Request.AboutRecords "get_in_id" s.table.database.name s.table.name
      [("id_array", .ofTexts s.ids), ("sign_array", .ofTexts (names.map s.table.field))]
      (s.sentFields names) := by
  have hsent := (getFields s names).inContext_sent (s.fieldsRequest names)
  refine ⟨hsent.controller, hsent.method, hsent.database, hsent.table, fun name value hmem => ?_⟩
  rcases List.mem_cons.mp hmem with hids | hsigns
  · obtain ⟨rfl, rfl⟩ := Prod.mk.inj hids
    exact hsent.ids s.ids rfl
  · obtain ⟨rfl, rfl⟩ := Prod.mk.inj (List.mem_singleton.mp hsigns)
    exact hsent.others "sign_array" (by decide) nofun

end Operation

/-! ## Searches -/

/-- A successful reply that lists identifiers. -/
def ListsIds (reply : Reply) (ids : List String) : Prop :=
  ∃ response : Response, reply = .ok response ∧ response.isSuccess = true ∧ response.ids = .ok ids

/-- A search for records, and a read of those that are found exactly if this is needed. -/
inductive SearchThen (search : Request → Prop) (needed : List String → Prop)
    (read : List String → Request → Prop) : Transcript → Prop
  /-- The search fails, or what it finds need not be read. -/
  | alone {sent : Request} {reply : Reply} (hsearch : search sent)
      (hneeded : ∀ ids, ListsIds reply ids → ¬ needed ids) :
    SearchThen search needed read [(sent, reply)]
  /-- What the search finds is read. -/
  | read {sent next : Request} {reply reply' : Reply} {ids : List String} (hsearch : search sent)
      (hids : ListsIds reply ids) (hneeded : needed ids) (hread : read ids next) :
    SearchThen search needed read [(sent, reply), (next, reply')]

/-- There is a search at least. -/
theorem SearchThen.ne_nil {search : Request → Prop} {needed : List String → Prop}
    {read : List String → Request → Prop} {log : Transcript} (h : SearchThen search needed read log) :
    log ≠ [] := by
  cases h <;> exact List.cons_ne_nil _ _

/-- A search comes to the identifiers that its reply lists. -/
theorem select_eq_ok_iff {t : Table} {request : Request} {reply : Reply} {s : Selection} :
    (Table.accepted request reply >>= fun response => t.select <$> response.ids) = .ok s ↔
      ∃ ids, ListsIds reply ids ∧ s = t.select ids := by
  rw [bind_eq_ok_iff]
  constructor
  · rintro ⟨response, haccepted, hselected⟩
    obtain ⟨rfl, hsuccess⟩ := Table.accepted_eq_ok_iff.mp haccepted
    obtain ⟨ids, hids, rfl⟩ := map_eq_ok_iff.mp hselected
    exact ⟨ids, ⟨response, rfl, hsuccess, hids⟩, rfl⟩
  · rintro ⟨ids, ⟨response, rfl, hsuccess, hids⟩, rfl⟩
    exact ⟨response, Table.accepted_ok request hsuccess, map_eq_ok_iff.mpr ⟨ids, hids, rfl⟩⟩

/-- A search that succeeds is one request, whose reply lists what it has found. -/
theorem runs_filter_ok_iff {t : Table} {filters : FilterChain} {log : Transcript} {s : Selection} :
    (t.filter filters).Runs log (.ok s) ↔
      ∃ reply ids, log = [(t.addressed (t.filterRequest filters), reply)] ∧ ListsIds reply ids ∧
        s = t.select ids := by
  rw [Table.filter_eq_single, Call.runs_single_iff]
  constructor
  · rintro ⟨reply, hlog, hs⟩
    obtain ⟨ids, hids, heq⟩ := select_eq_ok_iff.mp hs.symm
    exact ⟨reply, ids, hlog, hids, heq⟩
  · rintro ⟨reply, ids, hlog, hids, heq⟩
    exact ⟨reply, hlog, (select_eq_ok_iff.mpr ⟨ids, hids, heq⟩).symm⟩

/-- A search that goes on with a read where this is needed, and else without a request. -/
theorem searchThen_of_runs {α : Type} (t : Table) (filters : FilterChain) {f : Selection → Call α}
    {search : Request → Prop} {needed : List String → Prop} {read : List String → Request → Prop}
    {log : Transcript} {outcome : Except Error α}
    (hsearch : search (t.addressed (t.filterRequest filters)))
    (hneeded : ∀ ids log outcome, needed ids → (f (t.select ids)).Runs log outcome →
      ∃ next reply, log = [(next, reply)] ∧ read ids next)
    (hrest : ∀ ids log outcome, ¬ needed ids → (f (t.select ids)).Runs log outcome → log = [])
    (h : (t.filter filters >>= f).Runs log outcome) : SearchThen search needed read log := by
  rcases Call.runs_bind_iff.mp h with ⟨e, hfirst, -⟩ | ⟨before, s, after, rfl, hfirst, hafter⟩
  · rw [Table.filter_eq_single] at hfirst
    obtain ⟨reply, rfl, he⟩ := Call.runs_single_iff.mp hfirst
    refine .alone hsearch fun ids hids => ?_
    rw [select_eq_ok_iff.mpr ⟨ids, hids, rfl⟩] at he
    cases he
  · obtain ⟨reply, ids, rfl, hids, rfl⟩ := runs_filter_ok_iff.mp hfirst
    by_cases hneed : needed ids
    · obtain ⟨next, reply', rfl, hread⟩ := hneeded ids after outcome hneed hafter
      exact .read hsearch hids hneed hread
    · obtain rfl := hrest ids after outcome hneed hafter
      refine .alone hsearch fun ids' hids' => ?_
      -- the reply lists these identifiers and no others
      obtain ⟨response, rfl, -, hread⟩ := hids
      obtain ⟨response', hreply, -, hread'⟩ := hids'
      cases hreply
      rw [hread, Except.ok.injEq] at hread'
      rwa [← hread']

/-- A read of fields is one request. -/
theorem exists_read_of_runs {α : Type} {s : Selection} {names : List String}
    {f : ResultSet → Except Error α} {log : Transcript} {outcome : Except Error α}
    (h : (s.getFields names >>= fun result => Call.ofExcept (f result)).Runs log outcome) :
    ∃ reply, log = [(s.sentFields names, reply)] := by
  rw [Selection.getFields_eq_single, Call.single_bind fun _ => rfl] at h
  obtain ⟨reply, hlog, -⟩ := Call.runs_single_iff.mp h
  exact ⟨reply, hlog⟩

namespace Resolver

/-! ## The load of the projects -/

/-- The search for the active projects. -/
def SearchesProjects : Request → Prop :=
  Request.AboutRecords "get_with_filter" "public" "project" [("sign_filter_array",
    .array [.array [.string "project.status", .string "=", .string "Active"]])]

/-- The read of the codes and databases of projects. -/
def ReadsProjects (ids : List String) : Request → Prop :=
  Request.AboutRecords "get_in_id" "public" "project" [("id_array", .array (ids.map .string)),
    ("sign_array", .array [.string "project.code", .string "project.database"])]

/-- A request that belongs to a load of the projects. -/
def LoadsProjects (sent : Request) : Prop :=
  SearchesProjects sent ∨ ∃ ids, ReadsProjects ids sent

variable {r : Resolver} {key : EntryKey} {log : Transcript}

/-- The active projects are those whose status says so. -/
theorem toWire_active (client : Client) :
    ((PublicTable.projects client).table.formatFilters (PublicTable.projects client).active).toWire =
      .array [.array [.string "project.status", .string "=", .string "Active"]] := by
  let p := PublicTable.projects client
  have hstatus : p.table.field "status" = "project.status" :=
    (Table.field_of_not_isQualified (by decide)).trans rfl
  have hitems : (p.table.formatFilters p.active).items =
      [.filter ⟨p.table.field "status", .equal, .string "Active"⟩] := rfl
  rw [FilterChain.toWire, hitems, hstatus]
  rfl

/-- The search of a load. -/
def projectsSearch (r : Resolver) : Request :=
  (PublicTable.projects r.client).table.addressed
    ((PublicTable.projects r.client).table.filterRequest (PublicTable.projects r.client).active)

/-- The read of a load. -/
def projectsRead (r : Resolver) (ids : List String) : Request :=
  ((PublicTable.projects r.client).table.select ids).sentFields ["code", "database"]

/-- The load of the projects begins with a search for the active ones. -/
theorem searchesProjects_projectsSearch (r : Resolver) : SearchesProjects r.projectsSearch := by
  have hsearch := Operation.aboutRecords_filter (PublicTable.projects r.client).table
    (PublicTable.projects r.client).active
  rw [toWire_active] at hsearch
  exact hsearch

theorem readsProjects_projectsRead (r : Resolver) (ids : List String) :
    ReadsProjects ids (r.projectsRead ids) := by
  have hsigns : ["code", "database"].map (qualify "project") = ["project.code", "project.database"] := by
    decide
  let s := (PublicTable.projects r.client).table.select ids
  have hread := Operation.aboutRecords_getFields s ["code", "database"]
  rw [show s.table.field = qualify "project" from rfl, hsigns] at hread
  exact hread

/-- A load of the projects is a search for the active ones, and a read of them if it succeeds. -/
theorem searchThen_of_loadProjects {outcome : Except Error (List Project)}
    (h : r.loadProjects.Runs log outcome) :
    SearchThen SearchesProjects (fun _ => True) ReadsProjects log := by
  refine searchThen_of_runs (PublicTable.projects r.client).table (PublicTable.projects r.client).active
    r.searchesProjects_projectsSearch (fun ids log outcome _ hrest => ?_)
    (fun _ _ _ hno => absurd trivial hno) h
  obtain ⟨reply, rfl⟩ :=
    exists_read_of_runs (f := fun result => .ok (result.rows.map projectOfRow)) hrest
  exact ⟨_, reply, rfl, r.readsProjects_projectsRead ids⟩

/-- A read of codes and databases returns the rows of the reply in their order, since they have no
ranks. -/
theorem runs_getFields_projects_iff {ids : List String} {projects : List Project} :
    (((PublicTable.projects r.client).table.select ids).getFields ["code", "database"] >>=
        fun result => pure (result.rows.map projectOfRow)).Runs log (.ok projects) ↔
      ∃ response rows, Response.CarriesRows response 2 rows ∧ projects = rows.map projectOfRow ∧
        log = [(r.projectsRead ids, .ok response)] := by
  let s := (PublicTable.projects r.client).table.select ids
  have harranged : ∀ rows, s.arranged ["code", "database"] rows = rows := by
    intro rows
    have hcolumn : s.idColumn? (["code", "database"].map s.table.field) = none := by
      show (["code", "database"].map (qualify "project")).findIdx?
        (fun name => name == qualify "project" "id" || name == "#id") = none
      decide
    rw [Selection.arranged, hcolumn]
  have hreads := Operation.reads_readFields s ["code", "database"]
  rw [Call.runs_bind_pure_iff, Operation.selection_getFields_eq]
  simp only [Call.runs_single_iff]
  constructor
  · rintro ⟨found, ⟨reply, hlog, rfl⟩, hprojects⟩
    obtain ⟨result, hresult, rfl⟩ := map_eq_ok_iff.mp hprojects.symm
    obtain ⟨response, haccepted, hread⟩ := bind_eq_ok_iff.mp hresult
    obtain ⟨rfl, hsuccess⟩ := Table.accepted_eq_ok_iff.mp haccepted
    obtain ⟨rows, hrows, his⟩ := (hreads.ok_iff hsuccess).mp hread
    exact ⟨response, rows, hrows, by rw [his.rows, harranged], hlog⟩
  · rintro ⟨response, rows, hrows, rfl, hlog⟩
    obtain ⟨result, -, his⟩ := s.exists_resultOf ["code", "database"] hrows.width
    have hread := (hreads.ok_iff hrows.success).mpr ⟨rows, hrows, his⟩
    refine ⟨.ok result, ⟨.ok response, hlog, ?_⟩, ?_⟩
    · rw [Table.accepted_ok _ hrows.success]
      exact hread.symm
    · rw [map_eq_ok_iff.mpr ⟨result, rfl, rfl⟩, his.rows, harranged]

/-- A load that succeeds is a search and a read, and brings the projects of the rows of the reply to the
read, in their order. -/
theorem runs_loadProjects_ok_iff {projects : List Project} :
    r.loadProjects.Runs log (.ok projects) ↔
      ∃ reply ids response rows, ListsIds reply ids ∧ Response.CarriesRows response 2 rows ∧
        projects = rows.map projectOfRow ∧
        log = [(r.projectsSearch, reply), (r.projectsRead ids, .ok response)] := by
  show (Table.filter _ _ >>= _).Runs log _ ↔ _
  rw [Call.runs_bind_iff]
  constructor
  · rintro (⟨e, -, he⟩ | ⟨before, s, after, rfl, hall, hread⟩)
    · cases he
    · obtain ⟨reply, ids, rfl, hids, rfl⟩ := runs_filter_ok_iff.mp hall
      obtain ⟨response, rows, hrows, hprojects, rfl⟩ := runs_getFields_projects_iff.mp hread
      exact ⟨reply, ids, response, rows, hids, hrows, hprojects, rfl⟩
  · rintro ⟨reply, ids, response, rows, hids, hrows, hprojects, rfl⟩
    exact .inr ⟨_, _, _, rfl, runs_filter_ok_iff.mpr ⟨reply, ids, rfl, hids, rfl⟩,
      runs_getFields_projects_iff.mpr ⟨response, rows, hrows, hprojects, rfl⟩⟩

/-- Every list of projects can be loaded. -/
theorem exists_runs_loadProjects (r : Resolver) (projects : List Project) :
    ∃ log, r.loadProjects.Runs log (.ok projects) := by
  let row (p : Project) : List Datum := [.string p.code, .string p.database]
  let data : Json := .array ((projects.map row).map fun row => .array (Datum.toItems row))
  refine ⟨_, runs_loadProjects_ok_iff.mpr ⟨.ok (.ok .null), [], .ok data, projects.map row,
    ⟨_, rfl, rfl, rfl⟩, ⟨rfl, .inl rfl, ?_⟩, ?_, rfl⟩⟩
  · intro cells hcells
    obtain ⟨p, -, rfl⟩ := List.mem_map.mp hcells
    rfl
  · rw [List.map_map]
    exact (List.map_id projects).symm

/-! ## The search for an entry -/

/-- The search in a database for the records of the pipeline and of the shot of a question. -/
def SearchesEntry (r : Resolver) (key : EntryKey) (database : String) : Request → Prop :=
  Request.AboutRecords "get_with_filter" database key.table [("sign_filter_array",
    .array [.array [.string (key.table ++ ".pipeline"), .string "=", .string key.pipeline],
      .string "and",
      .array [.string "shot.shot", .string "=", .string (r.shotName key.filename)]])]

/-- The read of what decides between records. -/
def ReadsEntries (key : EntryKey) (database : String) (ids : List String) : Request → Prop :=
  Request.AboutRecords "get_in_id" database key.table [("id_array", .array (ids.map .string)),
    ("sign_array", .array [.string (key.table ++ ".id"), .string (key.table ++ ".account_id")])]

/-- What is sent for an entry in a database: the search, and a read of what it finds exactly if it finds
two records or more. -/
def SearchedIn (r : Resolver) (key : EntryKey) (database : String) : Transcript → Prop :=
  SearchThen (r.SearchesEntry key database) (fun ids => 2 ≤ ids.length) (ReadsEntries key database)

/-- An entry is searched for by the pipeline and the name of the shot. -/
theorem toWire_entryFilters (t : Table) (pipeline shot : String) :
    (t.formatFilters (entryFilters pipeline shot)).toWire =
      .array [.array [.string (t.name ++ ".pipeline"), .string "=", .string pipeline], .string "and",
        .array [.string "shot.shot", .string "=", .string shot]] := by
  have hpipeline : t.field "pipeline" = t.name ++ ".pipeline" :=
    Table.field_of_not_isQualified (by decide)
  have hshot : t.field "shot.shot" = "shot.shot" := Table.field_of_isQualified (by decide)
  have hitems : (t.formatFilters (entryFilters pipeline shot)).items =
      [.filter ⟨t.field "pipeline", .equal, .string pipeline⟩, .join .and,
        .filter ⟨t.field "shot.shot", .equal, .string shot⟩] := rfl
  rw [FilterChain.toWire, hitems, hpipeline, hshot]
  rfl

/-- A search for an entry sends requests about it in its database. -/
theorem searchedIn_of_findEntry {database : String} {outcome : Except Error Entry}
    (h : (r.findEntry key database).Runs log outcome) : r.SearchedIn key database log := by
  let t := (r.client.database database).table key.table
  have hsigns : Selection.narrowingFields.map t.field =
      [key.table ++ ".id", key.table ++ ".account_id"] := by
    rw [Selection.narrowingFields, List.map_cons, List.map_cons, List.map_nil,
      Table.field_of_not_isQualified (by decide), Table.field_of_not_isQualified (by decide)]
    rfl
  let filters := entryFilters key.pipeline (r.shotName key.filename)
  refine searchThen_of_runs t filters ?_
    (fun ids log outcome hlength hrest => ?_) (fun ids log outcome hlength hrest => ?_) h
  · have hsearch := Operation.aboutRecords_filter t filters
    rw [toWire_entryFilters] at hsearch
    exact hsearch
  · obtain ⟨id, id', ids, rfl⟩ : ∃ id id' rest, ids = id :: id' :: rest := by
      match ids with
      | [] | [_] => simp at hlength
      | id :: id' :: rest => exact ⟨id, id', rest, rfl⟩
    rw [show (t.select (id :: id' :: ids)).toEntry _ = _ from Selection.guess_eq_single _ _] at hrest
    obtain ⟨reply, hlog, -⟩ := Call.runs_single_iff.mp hrest
    refine ⟨_, reply, hlog, ?_⟩
    have hread := Operation.aboutRecords_getFields (t.select (id :: id' :: ids))
      Selection.narrowingFields
    rw [show (t.select (id :: id' :: ids)).table = t from rfl, hsigns] at hread
    exact hread
  · match ids with
    | [] => exact (Call.runs_throw_iff.mp hrest).1
    | [_] => exact (Call.runs_pure_iff.mp hrest).1
    | _ :: _ :: _ => simp at hlength

/-- A search for an entry is no load of the projects. -/
theorem not_loadsProjects_of_searchesEntry {database : String} {sent : Request}
    (h : r.SearchesEntry key database sent) : ¬ LoadsProjects sent := by
  rintro (hsearch | ⟨ids, hread⟩)
  · have hfilters := h.param_eq hsearch List.mem_cons_self List.mem_cons_self
    simp at hfilters
  · exact absurd (h.method_eq hread) (by decide)

theorem not_loadsProjects_of_readsEntries {database : String} {ids : List String} {sent : Request}
    (h : ReadsEntries key database ids sent) : ¬ LoadsProjects sent := by
  rintro (hsearch | ⟨ids', hread⟩)
  · exact absurd (h.method_eq hsearch) (by decide)
  · have hsigns := h.param_eq hread (List.mem_cons_of_mem _ List.mem_cons_self)
      (List.mem_cons_of_mem _ List.mem_cons_self)
    simp only [Json.array.injEq, List.cons.injEq, Json.string.injEq] at hsigns
    have hlast := congrArg (·.toList.getLast?) hsigns.1
    simp [List.getLast?_append] at hlast

/-! ## Answers -/

/-- What is sent for the answer to a question when the projects are known. -/
inductive AnsweredBy (r : Resolver) (question : Question) (projects : List Project) :
    Transcript → Prop
  /-- The projects themselves and the database of a file are known with them. -/
  | known (hkey : question.key? = none) : AnsweredBy r question projects []
  /-- No project's prefix begins the name of the file. -/
  | unlocated {key : EntryKey} (hkey : question.key? = some key)
      (hproject : r.projectOf? key.filename projects = none) : AnsweredBy r question projects []
  /-- The entry is searched for in the database of the first project whose prefix does. -/
  | searched {key : EntryKey} {project : Project} {log : Transcript}
      (hkey : question.key? = some key)
      (hproject : r.projectOf? key.filename projects = some project)
      (hsearched : r.SearchedIn key project.database log) : AnsweredBy r question projects log

/-- With the projects known, an answer is found without any of the requests of a load. -/
theorem AnsweredBy.not_loadsProjects {question : Question} {projects : List Project}
    (h : r.AnsweredBy question projects log) : ∀ sent ∈ log, ¬ LoadsProjects sent.1 := by
  intro sent hmem
  cases h with
  | known => cases hmem
  | unlocated => cases hmem
  | searched hkey hproject hsearched =>
    cases hsearched with
    | alone hsearch =>
      rw [List.mem_singleton.mp hmem]
      exact not_loadsProjects_of_searchesEntry hsearch
    | read hsearch _ _ hread =>
      rcases List.mem_cons.mp hmem with rfl | hmem
      · exact not_loadsProjects_of_searchesEntry hsearch
      · rw [List.mem_singleton.mp hmem]
        exact not_loadsProjects_of_readsEntries hread

/-- With the projects known, there is no entry without a database, and the search in the database is all
that is sent. -/
theorem findEntryWith_cases {projects : List Project} {outcome : Except Error Entry}
    (h : (r.findEntryWith key projects).Runs log outcome) :
    (r.projectOf? key.filename projects = none ∧ log = [] ∧ ∃ e, outcome = .error e) ∨
      ∃ project, r.projectOf? key.filename projects = some project ∧
        r.SearchedIn key project.database log := by
  cases hproject : r.projectOf? key.filename projects with
  | none =>
    rw [findEntryWith, locate, hproject] at h
    obtain ⟨rfl, rfl⟩ := Call.runs_throw_iff.mp h
    exact .inl ⟨rfl, rfl, _, rfl⟩
  | some project =>
    rw [findEntryWith, locate, hproject] at h
    exact .inr ⟨project, rfl, searchedIn_of_findEntry h⟩

variable {question : Question} {projects : List Project} {outcome : Except Error Answer}

/-- The answer to a question about an entry is that of the search for it. -/
theorem exists_findEntryWith_of_answerWith (hkey : question.key? = some key)
    (h : (r.answerWith question projects).Runs log outcome) :
    ∃ found, (r.findEntryWith key projects).Runs log found ∧ outcome = .entry <$> found := by
  cases question with
  | projects | database => cases hkey
  | entry | entryIn =>
    cases hkey
    exact Call.runs_bind_pure_iff.mp h

/-- An answer sends no other requests than those for its question. -/
theorem answeredBy_of_runs (h : (r.answerWith question projects).Runs log outcome) :
    r.AnsweredBy question projects log := by
  cases hkey : question.key? with
  | none =>
    have hlog : log = [] := by
      cases question with
      | projects => exact (Call.runs_pure_iff.mp h).1
      | database =>
        obtain ⟨found, hfound, -⟩ := Call.runs_bind_pure_iff.mp h
        exact (Call.runs_ofExcept_iff.mp hfound).1
      | entry | entryIn => cases hkey
    rw [hlog]
    exact .known hkey
  | some key =>
    obtain ⟨found, hfound, -⟩ := exists_findEntryWith_of_answerWith hkey h
    rcases findEntryWith_cases hfound with ⟨hproject, rfl, -⟩ | ⟨project, hproject, hsearched⟩
    · exact .unlocated hkey hproject
    · exact .searched hkey hproject hsearched

/-- An entry that is found was searched for. -/
theorem exists_searchedIn_of_ok {entry : Entry} (hkey : question.key? = some key)
    (h : (r.answerWith question projects).Runs log (.ok (.entry entry))) :
    ∃ project, r.projectOf? key.filename projects = some project ∧
      r.SearchedIn key project.database log := by
  obtain ⟨found, hfound, houtcome⟩ := exists_findEntryWith_of_answerWith hkey h
  rcases findEntryWith_cases hfound with ⟨-, -, e, rfl⟩ | hsearched
  · cases houtcome
  · exact hsearched

/-- A load of the projects begins with one of its requests. -/
theorem exists_loadsProjects_of_loadProjects {outcome : Except Error (List Project)}
    (h : r.loadProjects.Runs log outcome) : ∃ sent rest, log = sent :: rest ∧ LoadsProjects sent.1 := by
  cases searchThen_of_loadProjects h with
  | alone hsearch => exact ⟨_, _, rfl, .inl hsearch⟩
  | read hsearch => exact ⟨_, _, rfl, .inl hsearch⟩

end Resolver

end RemoteTable
