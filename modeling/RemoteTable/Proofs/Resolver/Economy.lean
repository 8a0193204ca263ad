import RemoteTable.Proofs.Cache.Uses
import RemoteTable.Proofs.Resolver.Requests

/-!
# What a resolver asks for once

Inquiries are made of a resolver one after the other (`Resolver.Session`), with any questions and any
replies (`Resolver.Session.exists_inquire`). Its caches remember of them the projects of the one load
that succeeded and the entry of every question that was resolved, and nothing else
(`Resolver.Session.remembers`). So the projects are loaded until a load succeeds and never again, and an
entry is searched for until its question is resolved and never again
(`Resolver.Session.request_economy`).
-/

namespace RemoteTable

namespace Resolver

/-! ## Sessions -/

/-- A question that was put to a resolver, with what was sent for it and what came out. -/
structure Inquiry where
  /-- The question. -/
  question : Question
  /-- The requests, each with the reply to it. -/
  log : Transcript
  /-- The answer or the failure. -/
  outcome : Except Error Answer

/-- An inquiry that has resolved a question about an entry. -/
def Inquiry.Resolves (i : Inquiry) (key : EntryKey) (entry : Entry) : Prop :=
  i.question.key? = some key ∧ i.outcome = .ok (.entry entry)

/-- An inquiry that has begun with a successful load of the projects. -/
def Inquiry.Lists (r : Resolver) (i : Inquiry) (projects : List Project) : Prop :=
  ∃ load rest, i.log = load ++ rest ∧ r.loadProjects.Runs load (.ok projects)

/-- A question about an entry was resolved. -/
def Resolved (past : List Inquiry) (key : EntryKey) (entry : Entry) : Prop :=
  ∃ i ∈ past, i.Resolves key entry

/-- The projects were loaded. -/
def Listed (r : Resolver) (past : List Inquiry) (projects : List Project) : Prop :=
  ∃ i ∈ past, i.Lists r projects

/-- The inquiries that can be made of a resolver one after the other, and its caches behind them. In
the beginning there is nothing in the caches, and they drop nothing. -/
inductive Session (r : Resolver) : List Inquiry → ResolverCaches → Prop
  /-- No inquiry was made yet. -/
  | start : Session r [] (.empty .never)
  /-- One more inquiry is made, whatever is replied. -/
  | inquire {past : List Inquiry} {caches caches' : ResolverCaches} {i : Inquiry}
      (hpast : Session r past caches)
      (hask : (r.ask i.question).Runs caches i.log i.outcome caches') :
    Session r (past ++ [i]) caches'

/-- An entry was found in the last inquiry or before. -/
theorem resolved_concat_iff {past : List Inquiry} {i : Inquiry} {key : EntryKey} {entry : Entry} :
    Resolved (past ++ [i]) key entry ↔ Resolved past key entry ∨ i.Resolves key entry := by
  simp [Resolved, or_and_right, exists_or]

theorem listed_concat_iff {r : Resolver} {past : List Inquiry} {i : Inquiry}
    {projects : List Project} :
    r.Listed (past ++ [i]) projects ↔ r.Listed past projects ∨ i.Lists r projects := by
  simp [Listed, or_and_right, exists_or]

variable {r : Resolver} {caches caches' : ResolverCaches} {i : Inquiry}

/-! ## What one inquiry changes -/

/-- A question about an entry is answered by the entries' cache or by the search. -/
theorem exists_entryIn_of_ask {key : EntryKey} (hkey : i.question.key? = some key)
    (h : (r.ask i.question).Runs caches i.log i.outcome caches') :
    ∃ found, (r.entryIn key).Runs caches i.log found caches' ∧ i.outcome = .entry <$> found := by
  obtain ⟨question, log, outcome⟩ := i
  cases question with
  | projects | database => cases hkey
  | entry | entryIn =>
    cases hkey
    exact exists_runs_entryIn h

/-- The other questions do not use the entries' cache. -/
theorem entries_of_ask (hidle : caches.Idle) (hkey : i.question.key? = none)
    (h : (r.ask i.question).Runs caches i.log i.outcome caches') : caches'.entries = caches.entries := by
  obtain ⟨question, log, outcome⟩ := i
  cases question with
  | projects =>
    have huses := r.usesProjects_projects.bind (f := fun projects => pure (Answer.projects projects))
      (g := fun projects => pure (Answer.projects projects)) fun _ => rfl
    exact (huses caches log outcome caches' hidle.projects h).2.2
  | database filename =>
    have huses := (r.usesProjects_database filename).bind (f := fun name => pure (Answer.database name))
      (g := fun name => pure (Answer.database name)) fun _ => rfl
    exact (huses caches log outcome caches' hidle.projects h).2.2
  | entry | entryIn => cases hkey

/-- The entries that are kept behind an inquiry are those that were kept, and the one that it has
resolved its question to. -/
theorem stored_of_ask (hidle : caches.Idle) (hkeeps : caches.entries.eviction = .never)
    (h : (r.ask i.question).Runs caches i.log i.outcome caches') :
    caches'.entries.eviction = .never ∧ ∀ key entry,
      caches'.entries.stored.find? key = some entry ↔
        caches.entries.stored.find? key = some entry ∨ i.Resolves key entry := by
  cases hkey : i.question.key? with
  | none =>
    rw [entries_of_ask hidle hkey h]
    refine ⟨hkeeps, fun key entry => ⟨.inl, ?_⟩⟩
    rintro (hstored | ⟨hkey', -⟩)
    · exact hstored
    · rw [hkey] at hkey'
      cases hkey'
  | some key =>
    obtain ⟨found, hfound, houtcome⟩ := exists_entryIn_of_ask hkey h
    have hresolves : ∀ key' entry', i.Resolves key' entry' ↔ key' = key ∧ found = .ok entry' := by
      intro key' entry'
      rw [Inquiry.Resolves, hkey, houtcome, Option.some_inj, @eq_comm _ key]
      refine and_congr_right fun _ => ?_
      cases found <;> simp
    cases hstored : caches.entries.stored.find? key with
    | some entry =>
      obtain ⟨-, rfl, rfl⟩ := entryIn_of_stored hstored hfound
      obtain ⟨c, hbegin, htouch, -⟩ := Cache.beginLookup_of_stored hstored
      refine ⟨(Cache.eviction_beginLookup _ key).trans hkeeps, fun key' entry' => ?_⟩
      rw [hbegin, htouch, RecencyList.find?_touch, hresolves]
      refine ⟨.inl, ?_⟩
      rintro (hold | ⟨rfl, hentry⟩)
      · exact hold
      · rw [hstored, Except.ok.inj hentry]
    | none =>
      obtain ⟨-, -, hentries⟩ := entryIn_of_not_stored hidle hstored hfound
      rw [hentries]
      refine ⟨(Cache.eviction_endLookup ..).trans hkeeps, fun key' entry' => ?_⟩
      rw [hresolves]
      cases found with
      | error e =>
        rw [(Cache.endLookup_awaiting_error caches.entries key e).1]
        simp
      | ok entry =>
        rw [(Cache.endLookup_awaiting_ok caches.entries key entry).1, hkeeps,
          RecencyList.find?_put_never, Function.update_apply]
        by_cases heq : key' = key
        · subst heq
          simp [hstored]
        · simp [heq]

/-- The list of projects that is kept behind an inquiry is the one that was kept, or the one that was
loaded. -/
theorem listed?_of_ask (hidle : caches.Idle)
    (h : (r.ask i.question).Runs caches i.log i.outcome caches') (projects : List Project) :
    caches'.listed? = some projects ↔ caches.listed? = some projects ∨ i.Lists r projects := by
  cases hkept : kept? caches i.question with
  | some entry =>
    obtain ⟨key, hkey, hstored⟩ := Option.bind_eq_some_iff.mp hkept
    obtain ⟨found, hfound, -⟩ := exists_entryIn_of_ask hkey h
    obtain ⟨hlog, -, rfl⟩ := entryIn_of_stored hstored hfound
    refine ⟨.inl, ?_⟩
    rintro (hlisted | ⟨load, rest, happend, hload⟩)
    · exact hlisted
    · rw [hlog] at happend
      rw [(List.append_eq_nil_iff.mp happend.symm).1] at hload
      exact absurd hload not_runs_nil_loadProjects
  | none =>
    rcases (runs_ask_of_not_kept hidle hkept h).1.cases with
      ⟨known, hknown, hlisted, hruns⟩ | ⟨hknown, hlisted, e, hfails, -⟩ |
      ⟨hknown, loaded, before, after, hlisted, hlog, hbefore, -⟩ <;> rw [hknown, hlisted]
    · -- no load is among the requests
      refine ⟨.inl, ?_⟩
      rintro (hold | ⟨load, rest, happend, hload⟩)
      · exact hold
      · obtain ⟨sent, more, rfl, hsent⟩ := exists_loadsProjects_of_loadProjects hload
        refine absurd hsent ((answeredBy_of_runs hruns).not_loadsProjects sent ?_)
        rw [happend]
        exact List.mem_cons_self
    · constructor
      · intro hnone
        cases hnone
      · rintro (hnone | ⟨load, rest, happend, hload⟩)
        · cases hnone
        · rw [← List.append_nil i.log] at happend
          cases (hfails.unique_of_append hload happend).2
    · constructor
      · intro heq
        cases heq
        exact .inr ⟨before, after, hlog, hbefore⟩
      · rintro (hnone | ⟨load, rest, happend, hload⟩)
        · cases hnone
        · rw [hlog] at happend
          rw [Except.ok.inj (hbefore.unique_of_append hload happend).2]

/-! ## What a session remembers -/

/-- Caches that hold what inquiries have brought, and nothing else. -/
structure Remembers (r : Resolver) (past : List Inquiry) (caches : ResolverCaches) : Prop where
  /-- No lookup is under way. -/
  idle : caches.Idle
  /-- No entry is dropped. -/
  keeps : caches.entries.eviction = .never
  /-- The list of projects is the one that was loaded. -/
  listed : ∀ projects, caches.listed? = some projects ↔ r.Listed past projects
  /-- The entries are those that questions were resolved to. -/
  stored : ∀ key entry, caches.entries.stored.find? key = some entry ↔ Resolved past key entry

/-- One more inquiry is remembered with the others. -/
theorem Remembers.inquire {past : List Inquiry} (hpast : r.Remembers past caches)
    (h : (r.ask i.question).Runs caches i.log i.outcome caches') :
    r.Remembers (past ++ [i]) caches' := by
  obtain ⟨hkeeps, hstored⟩ := stored_of_ask hpast.idle hpast.keeps h
  refine ⟨?_, hkeeps, fun projects => ?_, fun key entry => ?_⟩
  · cases hkept : kept? caches i.question with
    | some entry => exact (runs_ask_of_kept hpast.idle hkept h).2.2
    | none => exact (runs_ask_of_not_kept hpast.idle hkept h).2.1
  · rw [listed?_of_ask hpast.idle h, hpast.listed, listed_concat_iff]
  · rw [hstored, hpast.stored, resolved_concat_iff]

namespace Session

variable {past : List Inquiry}

/-- What is kept is what the inquiries have brought. -/
theorem remembers (h : r.Session past caches) :
    r.Remembers past caches := by
  induction h with
  | start =>
    refine ⟨ResolverCaches.idle_empty .never, rfl, fun projects => ⟨nofun, ?_⟩,
      fun key entry => ⟨nofun, ?_⟩⟩
    · rintro ⟨i, hmem, -⟩
      cases hmem
    · rintro ⟨i, hmem, -⟩
      cases hmem
  | inquire _ hask ih => exact ih.inquire hask

/-- Every question can be put behind a session, and the replies to it can be any. -/
theorem exists_inquire (hpast : r.Session past caches) (question : Question) (replies : ℕ → Reply) :
    ∃ i caches', i.question = question ∧ r.Session (past ++ [i]) caches' ∧
      ∀ k sent, i.log[k]? = some sent → sent.2 = replies k := by
  obtain ⟨log, ⟨outcome, caches'⟩, hruns, hreplies⟩ :=
    Exchange.exists_runs replies ((r.ask question).run.run caches)
  exact ⟨⟨question, log, outcome⟩, caches', rfl, .inquire hpast hruns, hreplies⟩

/-- Only one list of projects is ever loaded. -/
theorem listed_unique (hpast : r.Session past caches) {projects projects' : List Project}
    (h : r.Listed past projects) (h' : r.Listed past projects') : projects = projects' := by
  have hlisted := (hpast.remembers.listed projects).mpr h
  rw [(hpast.remembers.listed projects').mpr h'] at hlisted
  exact (Option.some.inj hlisted).symm

/-- An entry that was found is not looked for again. -/
theorem ask_of_resolved (hpast : r.Session past caches)
    (hask : (r.ask i.question).Runs caches i.log i.outcome caches') {key : EntryKey} {entry : Entry}
    (hkey : i.question.key? = some key) (h : Resolved past key entry) :
    i.log = [] ∧ i.outcome = .ok (.entry entry) := by
  have hkept : kept? caches i.question = some entry := by
    rw [kept?, hkey]
    exact (hpast.remembers.stored key entry).mpr h
  obtain ⟨hlog, houtcome, -⟩ := runs_ask_of_kept hpast.remembers.idle hkept hask
  exact ⟨hlog, houtcome⟩

/-- A question that was not resolved is answered with the projects that were loaded, or it loads
them. -/
theorem ask_of_not_resolved (hpast : r.Session past caches)
    (hask : (r.ask i.question).Runs caches i.log i.outcome caches')
    (h : ∀ key entry, i.question.key? = some key → ¬ Resolved past key entry) :
    (∃ projects, r.Listed past projects ∧ (r.answerWith i.question projects).Runs i.log i.outcome) ∨
      (∀ projects, ¬ r.Listed past projects) ∧
        ∃ load rest loaded, i.log = load ++ rest ∧ r.loadProjects.Runs load loaded ∧
          (∀ e, loaded = .error e → rest = [] ∧ i.outcome = .error e) ∧
          ∀ projects, loaded = .ok projects → (r.answerWith i.question projects).Runs rest i.outcome := by
  obtain ⟨hidle, -, hlisted, hstored⟩ := hpast.remembers
  have hkept : kept? caches i.question = none := by
    rw [kept?, Option.bind_eq_none_iff]
    intro key hkey
    rw [Option.eq_none_iff_forall_ne_some]
    exact fun entry hentry => h key entry hkey ((hstored key entry).mp hentry)
  have hnever : caches.listed? = none → ∀ projects, ¬ r.Listed past projects := by
    intro hnone projects hpro
    rw [(hlisted projects).mpr hpro] at hnone
    cases hnone
  rcases (runs_ask_of_not_kept hidle hkept hask).1.cases with
    ⟨projects, hknown, -, hruns⟩ | ⟨hknown, -, e, hfails, houtcome⟩ |
    ⟨hknown, projects, load, rest, -, hlog, hload, hruns⟩
  · exact .inl ⟨projects, (hlisted projects).mp hknown, hruns⟩
  · have hlog := (List.append_nil i.log).symm
    refine .inr ⟨hnever hknown, i.log, [], .error e, hlog, hfails, ?_, ?_⟩
    · rintro e' ⟨⟩
      exact ⟨rfl, houtcome⟩
    · rintro projects ⟨⟩
  · refine .inr ⟨hnever hknown, load, rest, .ok projects, hlog, hload, ?_, ?_⟩
    · rintro e ⟨⟩
    · rintro projects' ⟨⟩
      exact hruns

/-- An entry that was not resolved before is searched for, behind a load of the projects if they were
not loaded. -/
theorem exists_searchedIn_of_resolves (hpast : r.Session past caches)
    (hask : (r.ask i.question).Runs caches i.log i.outcome caches') {key : EntryKey} {entry : Entry}
    (hresolves : i.Resolves key entry) (h : ∀ entry, ¬ Resolved past key entry) :
    ∃ projects project load rest, i.log = load ++ rest ∧
      (r.Listed past projects ∧ load = [] ∨
        (∀ projects, ¬ r.Listed past projects) ∧ r.loadProjects.Runs load (.ok projects)) ∧
      r.projectOf? key.filename projects = some project ∧ r.SearchedIn key project.database rest := by
  obtain ⟨hkey, houtcome⟩ := hresolves
  have hno : ∀ key' entry, i.question.key? = some key' → ¬ Resolved past key' entry := by
    intro key' entry hkey'
    rw [hkey, Option.some_inj] at hkey'
    rw [← hkey']
    exact h entry
  rcases hpast.ask_of_not_resolved hask hno with
    ⟨projects, hlisted, hruns⟩ | ⟨hnever, load, rest, loaded, hlog, hload, hfails, hgoes⟩
  · rw [houtcome] at hruns
    obtain ⟨project, hproject, hsearched⟩ := exists_searchedIn_of_ok hkey hruns
    exact ⟨projects, project, [], i.log, rfl, .inl ⟨hlisted, rfl⟩, hproject, hsearched⟩
  · cases loaded with
    | error e =>
      rw [(hfails e rfl).2] at houtcome
      cases houtcome
    | ok projects =>
      have hruns := hgoes projects rfl
      rw [houtcome] at hruns
      obtain ⟨project, hproject, hsearched⟩ := exists_searchedIn_of_ok hkey hruns
      exact ⟨projects, project, load, rest, hlog, .inr ⟨hnever, hload⟩, hproject, hsearched⟩

/-- What a resolver has got is not asked for again. Behind any session, whatever was replied in it:

* a question about an entry that was resolved before sends nothing and has the same entry;
* an entry comes without a request only if the same file, pipeline and table were resolved before;
* every other question needs the projects, a question that has only failed among them. If they were
  loaded, it is answered with the projects of that load, and none of its requests belongs to a load. If
  they were not, it begins with a load, which is the search for the active projects, and a read of them
  exactly if the search succeeds; a failed load is the end, and else it is answered with the projects
  that were loaded;
* an entry that was not resolved before is found, behind the load if there is one, by one search in the
  database of the file and the table of the question for the pipeline and the shot, and by one read
  exactly if the search finds two records or more. -/
theorem request_economy (hpast : r.Session past caches)
    (hask : (r.ask i.question).Runs caches i.log i.outcome caches') :
    (∀ key entry, i.question.key? = some key → Resolved past key entry →
      i.log = [] ∧ i.outcome = .ok (.entry entry)) ∧
    (∀ key entry, i.Resolves key entry → i.log = [] → Resolved past key entry) ∧
    ((∀ key entry, i.question.key? = some key → ¬ Resolved past key entry) →
      (∀ projects, r.Listed past projects →
        (r.answerWith i.question projects).Runs i.log i.outcome ∧
        r.AnsweredBy i.question projects i.log ∧ ∀ sent ∈ i.log, ¬ LoadsProjects sent.1) ∧
      ((∀ projects, ¬ r.Listed past projects) →
        ∃ load rest loaded, i.log = load ++ rest ∧ r.loadProjects.Runs load loaded ∧
          SearchThen SearchesProjects (fun _ => True) ReadsProjects load ∧
          (∀ e, loaded = .error e → rest = [] ∧ i.outcome = .error e) ∧
          ∀ projects, loaded = .ok projects →
            (r.answerWith i.question projects).Runs rest i.outcome ∧
            r.AnsweredBy i.question projects rest)) ∧
    ∀ key entry, i.Resolves key entry → (∀ entry, ¬ Resolved past key entry) →
      ∃ projects project load rest, i.log = load ++ rest ∧
        (r.Listed past projects ∧ load = [] ∨
          (∀ projects, ¬ r.Listed past projects) ∧ r.loadProjects.Runs load (.ok projects)) ∧
        r.projectOf? key.filename projects = some project ∧
        r.SearchedIn key project.database rest := by
  refine ⟨fun key entry => hpast.ask_of_resolved hask, fun key entry hresolves hlog => ?_,
    fun hno => ⟨fun projects hlisted => ?_, fun hnever => ?_⟩,
    fun key entry => hpast.exists_searchedIn_of_resolves hask⟩
  · by_contra hnot
    have hno : ∀ entry', ¬ Resolved past key entry' := by
      intro entry' hresolved
      obtain ⟨-, houtcome⟩ := hpast.ask_of_resolved hask hresolves.1 hresolved
      cases houtcome.symm.trans hresolves.2
      exact hnot hresolved
    obtain ⟨_, project, load, rest, happend, -, -, hsearched⟩ :=
      hpast.exists_searchedIn_of_resolves hask hresolves hno
    exact hsearched.ne_nil (List.append_eq_nil_iff.mp (happend.symm.trans hlog)).2
  · rcases hpast.ask_of_not_resolved hask hno with ⟨projects', hlisted', hruns⟩ | ⟨hnever, -⟩
    · rw [← hpast.listed_unique hlisted hlisted'] at hruns
      have hanswered := answeredBy_of_runs hruns
      exact ⟨hruns, hanswered, hanswered.not_loadsProjects⟩
    · exact absurd hlisted (hnever projects)
  · rcases hpast.ask_of_not_resolved hask hno with
      ⟨projects, hlisted, -⟩ | ⟨-, load, rest, loaded, hlog, hload, hfails, hgoes⟩
    · exact absurd hlisted (hnever projects)
    · refine ⟨load, rest, loaded, hlog, hload, searchThen_of_loadProjects hload, hfails, ?_⟩
      exact fun projects heq => ⟨hgoes projects heq, answeredBy_of_runs (hgoes projects heq)⟩

end Session

/-- A resolver without a token. -/
def plain : Resolver :=
  .ofClient ⟨none, none⟩

/-- A question about a file of a shot. -/
def shotFile : EntryKey :=
  ⟨"SNJ_sc001_v2.nk", "comp", "shot"⟩

/-- A search that finds one record of the shot. -/
theorem exists_search_plain :
    ∃ search, (plain.answerWith (.entryIn shotFile) [⟨"SNJ", "film"⟩]).Runs search
      (.ok (.entry ⟨(plain.client.database "film").table "shot", "7"⟩)) := by
  have hlocate : plain.locate shotFile.filename [⟨"SNJ", "film"⟩] = .ok "film" := by decide
  have hfind : ∃ search, (plain.findEntry shotFile "film").Runs search
      (.ok ⟨(plain.client.database "film").table "shot", "7"⟩) := by
    refine ⟨_, Call.runs_bind_iff.mpr (.inr ⟨_, _, [], rfl, runs_filter_ok_iff.mpr
      ⟨.ok (.ok (.array [.string "7"])), ["7"], rfl, ⟨_, rfl, rfl, rfl⟩, rfl⟩, ?_⟩)⟩
    exact Call.runs_pure_iff.mpr ⟨rfl, rfl⟩
  obtain ⟨search, hfind⟩ := hfind
  refine ⟨search, Call.runs_bind_pure_iff.mpr ⟨.ok _, ?_, rfl⟩⟩
  rw [findEntryWith, hlocate]
  exact hfind

/-- An entry that was found sends nothing when it is asked for again. The same file and pipeline in
another table are searched for with the projects that were loaded. -/
theorem plain_request_economy :
    let entry : Entry := ⟨(plain.client.database "film").table "shot", "7"⟩
    let assetFile : EntryKey := { shotFile with table := "asset" }
    ∃ first caches, plain.Session [first] caches ∧ first.Resolves shotFile entry ∧
      (∀ log outcome caches',
        (plain.ask (.entry "SNJ_sc001_v2.nk" "comp")).Runs caches log outcome caches' →
        log = [] ∧ outcome = .ok (.entry entry)) ∧
      ∀ log outcome caches', (plain.ask (.entryIn assetFile)).Runs caches log outcome caches' →
        plain.SearchedIn assetFile "film" log := by
  intro entry assetFile
  obtain ⟨load, hload⟩ := plain.exists_runs_loadProjects [⟨"SNJ", "film"⟩]
  obtain ⟨search, hsearch⟩ := exists_search_plain
  obtain ⟨caches, hask⟩ := exists_runs_ask (ResolverCaches.idle_empty .never) rfl
    (Call.runs_bind_iff.mpr (.inr ⟨load, _, search, rfl, hload, hsearch⟩))
  let first : Inquiry := ⟨.entryIn shotFile, load ++ search, .ok (.entry entry)⟩
  have hsession : plain.Session [first] caches := .inquire (i := first) .start hask
  have hresolves : first.Resolves shotFile entry := ⟨rfl, rfl⟩
  have hlisted : plain.Listed [first] [⟨"SNJ", "film"⟩] :=
    ⟨first, List.mem_singleton_self first, load, search, rfl, hload⟩
  refine ⟨first, caches, hsession, hresolves, fun log outcome caches' h => ?_,
    fun log outcome caches' h => ?_⟩
  · let again : Inquiry := ⟨.entry "SNJ_sc001_v2.nk" "comp", log, outcome⟩
    exact (Session.request_economy (i := again) hsession h).1 shotFile entry rfl
      ⟨first, List.mem_singleton_self first, hresolves⟩
  · let other : Inquiry := ⟨.entryIn assetFile, log, outcome⟩
    have hno : ∀ key entry', other.question.key? = some key → ¬ Resolved [first] key entry' := by
      rintro key entry' hkey ⟨i, hmem, hkey', -⟩
      cases List.mem_singleton.mp hmem
      have hother : some assetFile = some key := hkey
      have hfirst : some shotFile = some key := hkey'
      exact absurd (hother.trans hfirst.symm) (by decide)
    obtain ⟨-, hanswered, -⟩ :=
      ((Session.request_economy (i := other) hsession h).2.2.1 hno).1 _ hlisted
    have hfound : plain.projectOf? assetFile.filename [⟨"SNJ", "film"⟩] = some ⟨"SNJ", "film"⟩ := by
      decide
    cases hanswered with
    | known hkey => cases hkey
    | unlocated hkey hproject =>
      cases hkey
      cases hfound.symm.trans hproject
    | searched hkey hproject hsearched =>
      cases hkey
      cases hfound.symm.trans hproject
      exact hsearched

end Resolver

end RemoteTable
