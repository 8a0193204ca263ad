import RemoteTable.Proofs.Resolver.Course

/-!
# Failures stop an operation and pass through

A question to a resolver goes through its caches: a kept entry answers it at once, kept projects spare
their load, and everything else is a call (`Resolver.Answers`). A failure is never kept, so the same
question put again takes up the part that failed. Together with the courses of operations and of public
tables this says what becomes of the first reply that is not accepted (`failures_pass_through`).
-/

namespace RemoteTable

/-! ## Caches between questions -/

namespace ResolverCaches

/-- Whether no lookup is under way, as between questions that are put one after the other. -/
structure Idle (caches : ResolverCaches) : Prop where
  /-- The projects are not being asked for. -/
  projects : caches.projects.pending = []
  /-- No entry is being asked for. -/
  entries : caches.entries.pending = []

/-- The list of projects that is kept. -/
def listed? (caches : ResolverCaches) : Option (List Project) :=
  caches.projects.stored.find? ()

/-- Nobody looks anything up in new caches. -/
theorem idle_empty (eviction : Eviction) : (empty eviction).Idle :=
  ⟨rfl, rfl⟩

end ResolverCaches

namespace Resolve

/-- The ways a computation of a resolver can go, with the caches in front of and behind it. -/
def Runs {α : Type} (x : Resolve α) (caches : ResolverCaches) (log : Transcript)
    (outcome : Except Error α) (caches' : ResolverCaches) : Prop :=
  Exchange.Runs (x.run.run caches) log (outcome, caches')

variable {α β : Type} {x : Resolve α} {f : α → Resolve β} {caches caches' : ResolverCaches}
  {log : Transcript}

/-- A run of a composed computation ends with the failure of its first part, or it goes on with the
second part behind a result of the first. -/
theorem runs_bind_iff {outcome : Except Error β} :
    Runs (x >>= f) caches log outcome caches' ↔
      (∃ e, Runs x caches log (.error e) caches' ∧ outcome = .error e) ∨
        ∃ before a between after, log = before ++ after ∧ Runs x caches before (.ok a) between ∧
          Runs (f a) between after outcome caches' := by
  have hbind : Runs (x >>= f) caches log outcome caches' ↔
      ∃ before first after, log = before ++ after ∧ Exchange.Runs (x.run.run caches) before first ∧
        Exchange.Runs (ExceptT.bindCont f first.1 first.2) after (outcome, caches') :=
    Exchange.runs_bind_iff (x := x.run.run caches)
  rw [hbind]
  constructor
  · rintro ⟨before, ⟨_ | a, between⟩, after, rfl, hfirst, hafter⟩
    · obtain ⟨rfl, heq⟩ := Exchange.runs_done_iff.mp hafter
      cases heq
      exact .inl ⟨_, by rwa [List.append_nil], rfl⟩
    · exact .inr ⟨before, a, between, after, rfl, hfirst, hafter⟩
  · rintro (⟨e, hfirst, rfl⟩ | ⟨before, a, between, after, rfl, hfirst, hafter⟩)
    · exact ⟨log, (.error e, caches'), [], by simp, hfirst, .done _⟩
    · exact ⟨before, (.ok a, between), after, rfl, hfirst, hafter⟩

/-- A call does not use the caches. -/
theorem runs_ofCall_iff {call : Call α} {outcome : Except Error α} :
    Runs (ofCall call) caches log outcome caches' ↔ call.Runs log outcome ∧ caches' = caches := by
  have hbind : Runs (ofCall call) caches log outcome caches' ↔
      ∃ before first after, log = before ++ after ∧ call.Runs before first ∧
        Exchange.Runs (pure (first, caches)) after (outcome, caches') :=
    Exchange.runs_bind_iff (x := call.run)
  rw [hbind]
  constructor
  · rintro ⟨before, first, after, rfl, hfirst, hafter⟩
    obtain ⟨rfl, heq⟩ := Exchange.runs_pure_iff.mp hafter
    cases heq
    exact ⟨by rwa [List.append_nil], rfl⟩
  · rintro ⟨hcall, rfl⟩
    exact ⟨log, outcome, [], by simp, hcall, .done _⟩

end Resolve

namespace Resolver

variable {r : Resolver} {α β : Type} {known? listed? : Option (List Project)}
  {rest : List Project → Call α} {log before after : Transcript}

/-! ## Questions without a kept entry -/

/-- How a question goes that no kept entry answers, if some projects are known in front of it and some
are behind it. -/
inductive Answers (r : Resolver) (known? : Option (List Project)) (rest : List Project → Call α) :
    Transcript → Except Error α → Option (List Project) → Prop
  /-- The projects are not known and their load fails. -/
  | unlisted {log : Transcript} {e : Error} (hload : (r.projectsFrom known?).Runs log (.error e)) :
    Answers r known? rest log (.error e) none
  /-- The projects are known or loaded, and the question is answered with them. -/
  | listed {before after : Transcript} {projects : List Project} {outcome : Except Error α}
      (hload : (r.projectsFrom known?).Runs before (.ok projects))
      (hrest : (rest projects).Runs after outcome) :
    Answers r known? rest (before ++ after) outcome (some projects)

namespace Answers

variable {outcome : Except Error α}

/-- An answer that goes through the caches is one that goes without, with the projects that are
known. -/
theorem runs (h : r.Answers known? rest log outcome listed?) :
    (r.projectsFrom known? >>= rest).Runs log outcome := by
  cases h with
  | unlisted hload => exact Call.runs_bind_iff.mpr (.inl ⟨_, hload, rfl⟩)
  | listed hload hrest => exact Call.runs_bind_iff.mpr (.inr ⟨_, _, _, rfl, hload, hrest⟩)

/-- The question is answered with the projects that are known, or it begins with a load of them. -/
theorem cases (h : r.Answers known? rest log outcome listed?) :
    (∃ projects, known? = some projects ∧ listed? = some projects ∧
        (rest projects).Runs log outcome) ∨
      (known? = none ∧ listed? = none ∧ ∃ e, r.loadProjects.Runs log (.error e) ∧
        outcome = .error e) ∨
      (known? = none ∧ ∃ projects before after, listed? = some projects ∧ log = before ++ after ∧
        r.loadProjects.Runs before (.ok projects) ∧ (rest projects).Runs after outcome) := by
  cases h with
  | unlisted hload =>
    cases known? with
    | some projects => cases (Call.runs_pure_iff.mp hload).2
    | none => exact .inr (.inl ⟨rfl, rfl, _, hload, rfl⟩)
  | listed hload hrest =>
    cases known? with
    | some projects =>
      obtain ⟨rfl, heq⟩ := Call.runs_pure_iff.mp hload
      cases heq
      exact .inl ⟨_, rfl, rfl, hrest⟩
    | none => exact .inr (.inr ⟨rfl, _, _, _, rfl, rfl, hload, hrest⟩)

/-- A failure is also that of what would follow. -/
theorem bind_error {e : Error} {g : α → Call β}
    (h : r.Answers known? rest log (.error e) listed?) :
    r.Answers known? (fun projects => rest projects >>= g) log (.error e) listed? := by
  generalize houtcome : (.error e : Except Error α) = outcome at h
  cases h with
  | unlisted hload =>
    cases houtcome
    exact .unlisted hload
  | listed hload hrest =>
    subst houtcome
    exact .listed hload (Call.runs_bind_iff.mpr (.inl ⟨e, hrest, rfl⟩))

/-- An answer may be worked on further. -/
theorem bind_ok {a : α} {g : α → Call β} {outcome : Except Error β}
    (h : r.Answers known? rest before (.ok a) listed?) (hg : (g a).Runs after outcome) :
    r.Answers known? (fun projects => rest projects >>= g) (before ++ after) outcome listed? := by
  generalize hfirst : (.ok a : Except Error α) = first at h
  cases h with
  | unlisted => cases hfirst
  | listed hload hrest =>
    subst hfirst
    rw [List.append_assoc]
    exact .listed hload (Call.runs_bind_iff.mpr (.inr ⟨_, a, _, rfl, hrest, hg⟩))

end Answers

/-- Whether a computation uses nothing of the caches but the list of projects, for which it may have to
ask, and goes on with a call. -/
def UsesProjects (r : Resolver) (x : Resolve α) (rest : List Project → Call α) : Prop :=
  ∀ caches log outcome caches', caches.projects.pending = [] →
    x.Runs caches log outcome caches' →
    r.Answers caches.listed? rest log outcome caches'.listed? ∧
      caches'.projects.pending = [] ∧ caches'.entries = caches.entries

/-- The list of projects is used as it is. -/
theorem usesProjects_projects (r : Resolver) : r.UsesProjects r.projects pure := by
  intro caches log outcome caches' hidle h
  unfold Resolve.Runs projects at h
  cases hlisted : caches.listed? with
  | some projects =>
    obtain ⟨c, hbegin, hstored, hpending⟩ := Cache.beginLookup_of_stored hlisted
    rw [Resolve.run_throughProjects_of_some caches hbegin] at h
    obtain ⟨rfl, heq⟩ := Exchange.runs_pure_iff.mp h
    cases heq
    have hkept : ({ caches with projects := c } : ResolverCaches).listed? = some projects := by
      rw [ResolverCaches.listed?, hstored, RecencyList.find?_touch]
      exact hlisted
    refine ⟨?_, hpending.trans hidle, rfl⟩
    have hload : (r.projectsFrom (some projects)).Runs [] (.ok projects) :=
      Call.runs_pure_iff.mpr ⟨rfl, rfl⟩
    rw [hkept]
    exact .listed hload (Call.runs_pure_iff.mpr ⟨rfl, rfl⟩)
  | none =>
    rw [Resolve.run_throughProjects_of_none caches
      (Cache.beginLookup_of_not_stored hidle hlisted)] at h
    obtain ⟨before, ⟨found, between⟩, after, rfl, hload, hafter⟩ := Exchange.runs_bind_iff.mp h
    obtain ⟨rfl, heq⟩ := Exchange.runs_pure_iff.mp hafter
    obtain ⟨hcall, rfl⟩ := Resolve.runs_ofCall_iff.mp hload
    cases heq
    cases found with
    | ok projects =>
      obtain ⟨hstored, hpending⟩ := Cache.endLookup_awaiting_ok caches.projects () projects
      refine ⟨?_, hpending, rfl⟩
      rw [ResolverCaches.listed?, hstored, RecencyList.find?_put_self]
      exact .listed hcall (Call.runs_pure_iff.mpr ⟨rfl, rfl⟩)
    | error e =>
      obtain ⟨hstored, hpending⟩ := Cache.endLookup_awaiting_error caches.projects () e
      refine ⟨?_, hpending, rfl⟩
      rw [ResolverCaches.listed?, hstored, List.append_nil]
      rw [ResolverCaches.listed?] at hlisted
      rw [hlisted]
      exact .unlisted hcall

/-- What is made of an answer without the caches uses the projects as the answer does. -/
theorem UsesProjects.bind {x : Resolve α} (hx : r.UsesProjects x rest) {f : α → Resolve β}
    {g : α → Call β} (hf : ∀ a, f a = Resolve.ofCall (g a)) :
    r.UsesProjects (x >>= f) fun projects => rest projects >>= g := by
  intro caches log outcome caches' hidle h
  rcases Resolve.runs_bind_iff.mp h with
    ⟨e, hfirst, rfl⟩ | ⟨before, a, between, after, rfl, hfirst, hafter⟩
  · obtain ⟨hanswers, hcaches⟩ := hx caches log _ caches' hidle hfirst
    exact ⟨hanswers.bind_error, hcaches⟩
  · rw [hf] at hafter
    obtain ⟨hcall, rfl⟩ := Resolve.runs_ofCall_iff.mp hafter
    obtain ⟨hanswers, hcaches⟩ := hx caches before _ _ hidle hfirst
    exact ⟨hanswers.bind_ok hcall, hcaches⟩

/-- The database of a file is located among the projects, without the caches. -/
theorem database_eq (r : Resolver) (filename : String) :
    r.database filename =
      r.projects >>= fun projects => Resolve.ofCall (Call.ofExcept (r.locate filename projects)) := by
  unfold database
  congr 1
  funext projects
  unfold locate
  cases r.projectOf? filename projects <;> rfl

/-- A database is located among the projects. -/
theorem usesProjects_database (r : Resolver) (filename : String) :
    r.UsesProjects (r.database filename) fun projects =>
      Call.ofExcept (r.locate filename projects) := by
  have huses := r.usesProjects_projects.bind fun projects =>
    (rfl : Resolve.ofCall (Call.ofExcept (r.locate filename projects)) = _)
  simp only [pure_bind, ← database_eq] at huses
  exact huses

/-- The search for an entry, without the entries' cache. -/
def searchEntry (r : Resolver) (key : EntryKey) : Resolve Entry := do
  let database ← r.database key.filename
  Resolve.ofCall (r.findEntry key database)

/-- An entry is searched for in the database that is located among the projects. -/
theorem usesProjects_searchEntry (r : Resolver) (key : EntryKey) :
    r.UsesProjects (r.searchEntry key) (r.findEntryWith key) :=
  (r.usesProjects_database key.filename).bind fun _ => rfl

/-! ## Questions about entries -/

section Entries

variable {caches caches' : ResolverCaches} {key : EntryKey} {entry : Entry}
  {outcome : Except Error Entry}

/-- A kept entry answers at once, and the entries' cache has seen one more lookup. -/
theorem entryIn_of_stored (hstored : caches.entries.stored.find? key = some entry)
    (h : (r.entryIn key).Runs caches log outcome caches') :
    log = [] ∧ outcome = .ok entry ∧
      caches' = { caches with entries := (caches.entries.beginLookup key).1 } := by
  obtain ⟨c, hbegin, -, -⟩ := Cache.beginLookup_of_stored hstored
  unfold Resolve.Runs entryIn at h
  rw [Resolve.run_throughEntries_of_some caches hbegin] at h
  obtain ⟨rfl, heq⟩ := Exchange.runs_pure_iff.mp h
  cases heq
  rw [hbegin]
  exact ⟨rfl, rfl, rfl⟩

/-- An entry that is not kept is searched for, and the outcome ends its lookup in the entries'
cache. -/
theorem entryIn_of_not_stored (hidle : caches.Idle)
    (hstored : caches.entries.stored.find? key = none)
    (h : (r.entryIn key).Runs caches log outcome caches') :
    r.Answers caches.listed? (r.findEntryWith key) log outcome caches'.listed? ∧
      caches'.projects.pending = [] ∧
      caches'.entries =
        (caches.entries.awaiting key).endLookup caches.entries.lookups.length outcome := by
  unfold Resolve.Runs entryIn at h
  rw [Resolve.run_throughEntries_of_none caches
    (Cache.beginLookup_of_not_stored hidle.entries hstored)] at h
  obtain ⟨before, ⟨found, between⟩, after, rfl, hfind, hafter⟩ := Exchange.runs_bind_iff.mp h
  obtain ⟨rfl, heq⟩ := Exchange.runs_pure_iff.mp hafter
  -- the lookup of the entry is under way while the projects are asked for
  obtain ⟨hanswers, hpending, hentries⟩ :=
    r.usesProjects_searchEntry key { caches with entries := caches.entries.awaiting key } before found
      between hidle.projects hfind
  cases heq
  rw [List.append_nil]
  exact ⟨hanswers, hpending, by rw [hentries]⟩

/-- An entry that is kept is the answer, and no request is sent. -/
theorem runs_entryIn_of_stored (hidle : caches.Idle)
    (hstored : caches.entries.stored.find? key = some entry)
    (h : (r.entryIn key).Runs caches log outcome caches') :
    log = [] ∧ outcome = .ok entry ∧ caches'.Idle := by
  obtain ⟨rfl, rfl, rfl⟩ := entryIn_of_stored hstored h
  obtain ⟨c, hbegin, -, hpending⟩ := Cache.beginLookup_of_stored hstored
  rw [hbegin]
  exact ⟨rfl, rfl, hidle.projects, hpending.trans hidle.entries⟩

/-- A failure of the search leaves the kept entries as they are. -/
theorem runs_entryIn_of_not_stored (hidle : caches.Idle)
    (hstored : caches.entries.stored.find? key = none)
    (h : (r.entryIn key).Runs caches log outcome caches') :
    r.Answers caches.listed? (r.findEntryWith key) log outcome caches'.listed? ∧ caches'.Idle ∧
      ∀ e, outcome = .error e → caches'.entries.stored = caches.entries.stored := by
  obtain ⟨hanswers, hpending, hentries⟩ := entryIn_of_not_stored hidle hstored h
  rw [hentries]
  refine ⟨hanswers, ⟨hpending, ?_⟩, ?_⟩
  · rw [hentries]
    cases outcome with
    | ok entry => exact (Cache.endLookup_awaiting_ok caches.entries key entry).2
    | error e => exact (Cache.endLookup_awaiting_error caches.entries key e).2
  · rintro e rfl
    exact (Cache.endLookup_awaiting_error caches.entries key e).1

end Entries

/-! ## All questions -/

/-- What the entry of a question is kept for. -/
def Question.key? : Question → Option EntryKey
  | .projects | .database _ => none
  | .entry filename pipeline => some ⟨filename, pipeline, "shot"⟩
  | .entryIn key => some key

/-- The entry that is kept for a question. -/
def kept? (caches : ResolverCaches) (question : Question) : Option Entry :=
  question.key?.bind fun key => caches.entries.stored.find? key

/-- The course of a question: nothing is asked if an entry is kept for it, and else the projects are
asked for unless they are kept. -/
def courseFrom (r : Resolver) (caches : ResolverCaches) (question : Question) : Course Answer :=
  match kept? caches question with
  | some entry => .done (.ok (.entry entry))
  | none => (r.projectsCourse caches.listed?).bind (r.answerCourse question)

variable {caches caches' : ResolverCaches} {question : Question} {outcome : Except Error Answer}

/-- A question about an entry is the question to the cache. -/
theorem exists_runs_entryIn {key : EntryKey}
    (h : Resolve.Runs (do return .entry (← r.entryIn key)) caches log outcome caches') :
    ∃ found, (r.entryIn key).Runs caches log found caches' ∧ outcome = .entry <$> found := by
  rcases Resolve.runs_bind_iff.mp h with
    ⟨e, hfirst, rfl⟩ | ⟨before, entry, between, after, rfl, hfirst, hafter⟩
  · exact ⟨.error e, hfirst, rfl⟩
  · obtain ⟨rfl, heq⟩ := Exchange.runs_done_iff.mp hafter
    cases heq
    exact ⟨.ok entry, by rwa [List.append_nil], rfl⟩

/-- A question with a kept entry is answered by it, and no request is sent. -/
theorem runs_ask_of_kept {entry : Entry} (hidle : caches.Idle)
    (hkept : kept? caches question = some entry)
    (h : (r.ask question).Runs caches log outcome caches') :
    log = [] ∧ outcome = .ok (.entry entry) ∧ caches'.Idle := by
  cases question with
  | projects | database => cases hkept
  | entry | entryIn =>
    obtain ⟨found, hfound, rfl⟩ := exists_runs_entryIn h
    obtain ⟨rfl, rfl, hidle'⟩ := runs_entryIn_of_stored hidle hkept hfound
    exact ⟨rfl, rfl, hidle'⟩

/-- A question without a kept entry is answered with the projects, and a failure leaves the entries'
cache as it is. -/
theorem runs_ask_of_not_kept (hidle : caches.Idle) (hkept : kept? caches question = none)
    (h : (r.ask question).Runs caches log outcome caches') :
    r.Answers caches.listed? (r.answerWith question) log outcome caches'.listed? ∧ caches'.Idle ∧
      ∀ e, outcome = .error e → caches'.entries.stored = caches.entries.stored := by
  have huses : ∀ {x : Resolve Answer}, r.UsesProjects x (r.answerWith question) →
      x.Runs caches log outcome caches' →
      r.Answers caches.listed? (r.answerWith question) log outcome caches'.listed? ∧ caches'.Idle ∧
        ∀ e, outcome = .error e → caches'.entries.stored = caches.entries.stored := by
    intro x hx h
    obtain ⟨hanswers, hpending, hentries⟩ := hx caches log outcome caches' hidle.projects h
    exact ⟨hanswers, ⟨hpending, hentries ▸ hidle.entries⟩, fun _ _ => by rw [hentries]⟩
  cases question with
  | projects => exact huses (r.usesProjects_projects.bind fun _ => rfl) h
  | database filename => exact huses ((r.usesProjects_database filename).bind fun _ => rfl) h
  | entry | entryIn =>
    obtain ⟨found, hfound, rfl⟩ := exists_runs_entryIn h
    obtain ⟨hanswers, hidle', hstored⟩ := runs_entryIn_of_not_stored hidle hkept hfound
    cases found with
    | error e => exact ⟨hanswers.bind_error, hidle', fun _ _ => hstored e rfl⟩
    | ok entry =>
      refine ⟨?_, hidle', fun e he => by cases he⟩
      rw [← List.append_nil log]
      exact hanswers.bind_ok (Call.runs_pure_iff.mpr ⟨rfl, rfl⟩)

/-- Every run of the call that a question without a kept entry comes to is a run of the question. -/
theorem exists_runs_ask (hidle : caches.Idle) (hkept : kept? caches question = none)
    (h : (r.projectsFrom caches.listed? >>= r.answerWith question).Runs log outcome) :
    ∃ caches', (r.ask question).Runs caches log outcome caches' := by
  have hcall : ∀ log (behind : Except Error Answer × ResolverCaches),
      Exchange.Runs ((r.ask question).run.run caches) log behind →
        (r.projectsFrom caches.listed? >>= r.answerWith question).Runs log behind.1 :=
    fun log behind hruns => (runs_ask_of_not_kept hidle hkept hruns).1.runs
  obtain ⟨⟨_, caches'⟩, hruns, rfl⟩ := Exchange.exists_runs_of_map hcall h
  exact ⟨caches', hruns⟩

/-- No entry is kept for a question that fails. -/
theorem kept?_eq_none_of_error {e : Error} (hidle : caches.Idle)
    (h : (r.ask question).Runs caches log (.error e) caches') : kept? caches question = none := by
  cases hkept : kept? caches question with
  | none => rfl
  | some entry => cases (runs_ask_of_kept hidle hkept h).2.1

/-- A question goes as its course says. -/
theorem ends_courseFrom (hidle : caches.Idle)
    (h : (r.ask question).Runs caches log outcome caches') :
    (r.courseFrom caches question).Ends log outcome := by
  unfold courseFrom
  cases hkept : kept? caches question with
  | some entry =>
    obtain ⟨rfl, rfl, -⟩ := runs_ask_of_kept hidle hkept h
    exact .done _
  | none =>
    exact (r.followedBy_projectsCourse _).bind (r.followedBy_answerCourse question) log outcome
      (runs_ask_of_not_kept hidle hkept h).1.runs

theorem failsOnly_courseFrom (r : Resolver) (caches : ResolverCaches) (question : Question) :
    (r.courseFrom caches question).FailsOnly Error.IsExpected := by
  unfold courseFrom
  cases kept? caches question with
  | some entry => exact Course.failsOnly_ok _
  | none => exact (r.failsOnly_projectsCourse _).bind (r.failsOnly_answerCourse question)

/-! ## Failed questions -/

/-- A call that begins with a request sends it. -/
theorem not_runs_nil_of_single {request : Request} {result : Reply → Except Error α}
    {f : α → Call β} {outcome : Except Error β} :
    ¬ (Call.single request result >>= f).Runs [] outcome := by
  intro h
  rcases Call.runs_bind_iff.mp h with ⟨e, hfirst, -⟩ | ⟨before, a, after, hlog, hfirst, -⟩
  · obtain ⟨reply, hlog, -⟩ := Call.runs_single_iff.mp hfirst
    cases hlog
  · obtain ⟨reply, rfl, -⟩ := Call.runs_single_iff.mp hfirst
    cases hlog

theorem not_runs_nil_loadProjects {outcome : Except Error (List Project)} :
    ¬ r.loadProjects.Runs [] outcome := by
  show ¬ (Table.filter _ _ >>= _).Runs [] outcome
  rw [Table.filter_eq_single]
  exact not_runs_nil_of_single

theorem not_runs_nil_findEntry {key : EntryKey} {database : String} {outcome : Except Error Entry} :
    ¬ (r.findEntry key database).Runs [] outcome := by
  show ¬ (Table.filter _ _ >>= _).Runs [] outcome
  rw [Table.filter_eq_single]
  exact not_runs_nil_of_single

/-- Given the projects, a question fails without asking only for want of a database. -/
theorem error_of_runs_nil_answerWith {projects : List Project} {e : Error}
    (h : (r.answerWith question projects).Runs [] (.error e)) :
    ∃ filename, e = .cannotDetermineTarget filename := by
  have hlocate : ∀ {filename : String}, (Call.ofExcept (r.locate filename projects)).Runs []
      (.error e) → ∃ filename, e = .cannotDetermineTarget filename := by
    intro filename h
    exact ⟨filename, r.error_of_locate (Call.runs_ofExcept_iff.mp h).2.symm⟩
  have hentry : ∀ {key : EntryKey}, (r.findEntryWith key projects).Runs [] (.error e) →
      ∃ filename, e = .cannotDetermineTarget filename := by
    intro key h
    rcases Call.runs_bind_iff.mp h with ⟨e', hfirst, he⟩ | ⟨before, a, after, hlog, -, hafter⟩
    · cases he
      exact hlocate hfirst
    · obtain ⟨-, rfl⟩ := List.append_eq_nil_iff.mp hlog.symm
      exact absurd hafter not_runs_nil_findEntry
  have hmap : ∀ {β : Type} {x : Call β} {g : β → Answer},
      (x >>= fun a => pure (g a)).Runs [] (.error e) → x.Runs [] (.error e) := by
    intro β x g h
    obtain ⟨found, hfound, he⟩ := Call.runs_bind_pure_iff.mp h
    cases found with
    | ok => cases he
    | error => rwa [Except.error.inj he]
  cases question with
  | projects => cases (Call.runs_pure_iff.mp h).2
  | database => exact hlocate (hmap h)
  | entry | entryIn => exact hentry (hmap h)

/-- A question that has failed can go on from the part that failed. -/
theorem Answers.exists_again {e : Error}
    (h : r.Answers known? (r.answerWith question) log (.error e) listed?) :
    ∃ again, again <:+ log ∧ (again = [] → ∃ filename, e = .cannotDetermineTarget filename) ∧
      (r.projectsFrom listed? >>= r.answerWith question).Runs again (.error e) := by
  -- the answer is put together again from projects that are known now
  have hanswer : ∀ {projects after}, (r.answerWith question projects).Runs after (.error e) →
      (r.projectsFrom (some projects) >>= r.answerWith question).Runs after (.error e) :=
    fun hrest => Call.runs_bind_iff.mpr
      (.inr ⟨[], _, _, rfl, Call.runs_pure_iff.mpr ⟨rfl, rfl⟩, hrest⟩)
  rcases h.cases with ⟨projects, -, rfl, hrest⟩ | ⟨-, rfl, e', hload, he⟩ |
    ⟨-, projects, before, after, rfl, rfl, -, hrest⟩
  · refine ⟨log, List.suffix_refl log, ?_, hanswer hrest⟩
    rintro rfl
    exact error_of_runs_nil_answerWith hrest
  · cases he
    refine ⟨log, List.suffix_refl log, ?_, Call.runs_bind_iff.mpr (.inl ⟨e, hload, rfl⟩)⟩
    rintro rfl
    exact absurd hload not_runs_nil_loadProjects
  · refine ⟨after, List.suffix_append before after, ?_, hanswer hrest⟩
    rintro rfl
    exact error_of_runs_nil_answerWith hrest

/-- A question that has failed and is put again repeats the part that failed: with the same replies it
sends the same requests from this part on, and fails alike. -/
theorem exists_runs_again {e : Error} (hidle : caches.Idle)
    (h : (r.ask question).Runs caches log (.error e) caches') :
    ∃ again caches'', again <:+ log ∧ (again = [] → ∃ filename, e = .cannotDetermineTarget filename) ∧
      (r.ask question).Runs caches' again (.error e) caches'' := by
  have hkept := kept?_eq_none_of_error hidle h
  obtain ⟨hanswers, hidle', hstored⟩ := runs_ask_of_not_kept hidle hkept h
  obtain ⟨again, hsuffix, hnil, hagain⟩ := hanswers.exists_again
  have hkept' : kept? caches' question = none := by rw [kept?, hstored e rfl, ← kept?, hkept]
  obtain ⟨caches'', hruns⟩ := exists_runs_ask hidle' hkept' hagain
  exact ⟨again, caches'', hsuffix, hnil, hruns⟩

/-- A load of the projects that fails leaves no list of them. -/
theorem Answers.listed?_eq_none {e : Error}
    (h : r.Answers none (r.answerWith question) log (.error e) listed?)
    (hload : r.loadProjects.Runs log (.error e)) : listed? = none := by
  rcases h.cases with ⟨projects, hknown, -⟩ | ⟨-, hlisted, -⟩ |
    ⟨-, projects, before, after, -, rfl, hbefore, -⟩
  · cases hknown
  · exact hlisted
  · -- a load that fails with these replies does not succeed with the first of them
    cases (hbefore.unique_of_append hload (List.append_nil _).symm).2

end Resolver

open Resolver (Question kept?)

/-- Failures stop an operation and pass through. Every sequence of replies leads to a run, and a run
goes from request to request as long as the replies are accepted; the first reply that is not is the
failure, and nothing is sent behind it (`Course.Ends`). This holds of

* the operations on tables, selections and entries, and on the history of selections;
* the search for the active records of a public table, and the list of their names;
* the questions to a resolver between other questions. When one fails, the kept entries are as before,
  with none for this question, and a load of the projects that failed has left no list. The question put
  again begins with the part that failed: with the same replies it repeats the last requests, the failed
  one among them unless only a database was not found, and fails alike. -/
theorem failures_pass_through :
    (∀ {α : Type} (x : Exchange α) (replies : ℕ → Reply), ∃ log result, x.Runs log result ∧
      ∀ i sent, log[i]? = some sent → sent.2 = replies i) ∧
    (∀ {α : Type} (op : Operation α) log outcome, op.perform.Runs log outcome →
      op.course.Ends log outcome) ∧
    (∀ (p : PublicTable) log outcome, p.all.Runs log outcome → p.allCourse.Ends log outcome) ∧
    (∀ (p : PublicTable) log outcome, p.names.Runs log outcome → p.namesCourse.Ends log outcome) ∧
    ∀ (r : Resolver) (question : Question) caches log outcome caches', caches.Idle →
      (r.ask question).Runs caches log outcome caches' →
      (r.courseFrom caches question).Ends log outcome ∧ caches'.Idle ∧
      ∀ e, outcome = .error e →
        caches'.entries.stored = caches.entries.stored ∧ kept? caches' question = none ∧
        (caches.listed? = none → r.loadProjects.Runs log (.error e) → caches'.listed? = none) ∧
        ∃ again caches'', again <:+ log ∧
          (again = [] → ∃ filename, e = .cannotDetermineTarget filename) ∧
          (r.ask question).Runs caches' again (.error e) caches'' := by
  refine ⟨fun x replies => x.exists_runs replies, fun op => op.followedBy_course,
    fun p => p.followedBy_allCourse, fun p => p.followedBy_namesCourse, ?_⟩
  intro r question caches log outcome caches' hidle h
  refine ⟨Resolver.ends_courseFrom hidle h, ?_, ?_⟩
  · cases hkept : kept? caches question with
    | some entry => exact (Resolver.runs_ask_of_kept hidle hkept h).2.2
    | none => exact (Resolver.runs_ask_of_not_kept hidle hkept h).2.1
  · rintro e rfl
    have hkept := Resolver.kept?_eq_none_of_error hidle h
    obtain ⟨hanswers, -, hstored⟩ := Resolver.runs_ask_of_not_kept hidle hkept h
    refine ⟨hstored e rfl, ?_, ?_, Resolver.exists_runs_again hidle h⟩
    · rw [kept?, hstored e rfl, ← kept?, hkept]
    · intro hlisted hload
      rw [hlisted] at hanswers
      exact hanswers.listed?_eq_none hload

/-- The load of the projects finds one project and is rejected at its code: the two requests are the
first of the next question too. -/
theorem rejected_load_failures_pass_through :
    let r := Resolver.ofClient ⟨none, none⟩
    let question : Question := .entry "SNJ_sc001.nk" "comp"
    let found : Response := .ok (.array [.string "7"])
    let rejected : Response := ⟨.null, 0, "json"⟩
    ∃ first second caches' again caches'',
      (r.ask question).Runs (.empty .never) [(first, .ok found), (second, .ok rejected)]
        (.error (.transport (.rejected "c_orm" "get_in_id" 0 .null))) caches' ∧
      caches'.listed? = none ∧ again <:+ [(first, .ok found), (second, .ok rejected)] ∧ again ≠ [] ∧
      (r.ask question).Runs caches' again
        (.error (.transport (.rejected "c_orm" "get_in_id" 0 .null))) caches'' := by
  intro r question found rejected
  let selection : Selection := ⟨⟨"project", ⟨"public", ⟨none, none⟩⟩, none⟩, ["7"]⟩
  have hall : ∃ first, (PublicTable.projects r.client).all.Runs [(first, .ok found)]
      (.ok selection) := by
    refine ⟨selection.table.addressed (selection.table.filterRequest
      (PublicTable.projects r.client).active), ?_⟩
    rw [PublicTable.all, Table.filter_eq_single]
    exact Call.runs_single_iff.mpr ⟨.ok found, rfl, rfl⟩
  have hread : ∃ second, (selection.getFields ["code", "database"]).Runs [(second, .ok rejected)]
      (.error (.transport (.rejected "c_orm" "get_in_id" 0 .null))) := by
    refine ⟨selection.sentFields ["code", "database"], ?_⟩
    rw [Selection.getFields_eq_single]
    exact Call.runs_single_iff.mpr ⟨.ok rejected, rfl, rfl⟩
  obtain ⟨first, hall⟩ := hall
  obtain ⟨second, hread⟩ := hread
  have hload : r.loadProjects.Runs [(first, .ok found), (second, .ok rejected)]
      (.error (.transport (.rejected "c_orm" "get_in_id" 0 .null))) :=
    Call.runs_bind_iff.mpr (.inr ⟨[_], selection, [_], rfl, hall,
      Call.runs_bind_iff.mpr (.inl ⟨_, hread, rfl⟩)⟩)
  have hidle := ResolverCaches.idle_empty .never
  have hkept : kept? (.empty .never) question = none := rfl
  obtain ⟨caches', h⟩ := Resolver.exists_runs_ask hidle hkept
    (Call.runs_bind_iff.mpr (.inl ⟨_, hload, rfl⟩))
  obtain ⟨-, -, hfailed⟩ := failures_pass_through.2.2.2.2 r question _ _ _ _ hidle h
  obtain ⟨-, -, hlisted, again, caches'', hsuffix, hnil, hagain⟩ := hfailed _ rfl
  refine ⟨first, second, caches', again, caches'', h, hlisted rfl hload, hsuffix, ?_, hagain⟩
  intro heq
  obtain ⟨filename, hfilename⟩ := hnil heq
  cases hfilename

end RemoteTable
