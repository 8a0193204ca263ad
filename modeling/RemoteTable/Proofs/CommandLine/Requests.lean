import Mathlib.Data.List.TakeWhile
import RemoteTable.CommandLine.Plan
import RemoteTable.Proofs.CommandLine.Arguments
import RemoteTable.Proofs.Operation
import RemoteTable.Proofs.Text.Numeral

/-!
# What a command line sends

A command line stays local if it asks for nothing from the server, if it cannot be carried out, or if
its question is not answered with yes (`CommandLine.StaysLocal`). It is then not half carried out
either: nothing is sent. Every other command line asks for one operation on a database
(`Task.Asks`) and sends the one request of this operation, whatever comes back
(`CommandLine.one_request_or_none`).
-/

namespace RemoteTable

/-! ## Answers -/

/-- An answer that says yes: the word in any letter case, with blanks around it. -/
def SaysYes (answer : String) : Prop :=
  ∃ front word back, answer.toList = front ++ word ++ back ∧ (∀ c ∈ front, isBlank c = true) ∧
    (∀ c ∈ back, isBlank c = true) ∧ word.map Char.toLower = ['y', 'e', 's']

/-- Blanks have no case. -/
theorem toLower_of_isBlank {c : Char} (h : isBlank c = true) : c.toLower = c := by
  unfold Char.toLower
  rw [dif_neg]
  rintro ⟨hlow, hhigh⟩
  have hlow : 65 ≤ c.toNat := hlow
  have hhigh : c.toNat ≤ 90 := hhigh
  simp only [isBlank, Bool.or_eq_true, Bool.and_eq_true, decide_eq_true_eq, beq_iff_eq] at h
  omega

/-- No letter but the Kelvin sign has another lower case than in ASCII. -/
theorem lowerLetter_eq_iff {c l : Char} (hk : l ≠ 'k') (hkelvin : l ≠ '\u212A') :
    RawSetting.lowerLetter c = l ↔ c.toLower = l := by
  unfold RawSetting.lowerLetter
  split
  case isTrue h =>
    subst h
    exact ⟨fun h => absurd h.symm hk, fun h => absurd h.symm hkelvin⟩
  case isFalse => exact Iff.rfl

/-- The program takes exactly the answers that say yes. -/
theorem isYes_iff {answer : String} : Job.isYes answer = true ↔ SaysYes answer := by
  have hletters : ∀ word : List Char, word.map RawSetting.lowerLetter = ['y', 'e', 's'] ↔
      word.map Char.toLower = ['y', 'e', 's'] := by
    intro word
    have heach : ∀ l ∈ ['y', 'e', 's'], ∀ c, RawSetting.lowerLetter c = l ↔ c.toLower = l := by
      intro l hl c
      apply lowerLetter_eq_iff <;> rintro rfl <;> exact absurd hl (by decide)
    match word with
    | [] | [_] | [_, _] | _ :: _ :: _ :: _ :: _ => simp
    | [a, b, c] => simp [heach 'y' (by decide), heach 'e' (by decide), heach 's' (by decide)]
  rw [Job.isYes, beq_iff_eq, RawSetting.lowerName, ← String.toList_inj, String.toList_ofList]
  constructor
  · intro h
    obtain ⟨front, back, hsplit, hfront, hback⟩ := exists_trimBlanks answer.toList
    exact ⟨front, _, back, hsplit, hfront, hback, (hletters _).mp h⟩
  · rintro ⟨front, word, back, hsplit, hfront, hback, hword⟩
    have hcore : ∀ c ∈ word, isBlank c = false := by
      intro c hc
      rw [Bool.eq_false_iff]
      intro hblank
      have hmem : c.toLower ∈ ['y', 'e', 's'] := by
        rw [← hword]
        exact List.mem_map_of_mem hc
      rw [toLower_of_isBlank hblank] at hmem
      simp only [List.mem_cons, List.not_mem_nil, or_false] at hmem
      rcases hmem with rfl | rfl | rfl <;> cases hblank
    rw [hsplit, trimBlanks_append hfront (isTrimmed_of_forall hcore) hback]
    exact (hletters word).mpr hword

/-! ## Filters and assignments -/

/-- A text describes filters: it is JSON, and the value is the wire form of filters. -/
def DescribesFilters (text : String) (filters : FilterChain) : Prop :=
  ∃ v, Json.ofText? text = some v ∧ FilterChain.parse v = .ok filters

/-- The program reads exactly the filters that a text describes. -/
theorem readFilter_eq_ok_iff {text : String} {filters : FilterChain} :
    readFilter text = .ok filters ↔ DescribesFilters text filters := by
  unfold readFilter DescribesFilters
  cases Json.ofText? text with
  | none => simp
  | some v => cases h : FilterChain.parse v <;> simp [Except.mapError, h]

/-- A text stands for a value: for the JSON value that it describes, as a datum, and for itself if it
describes none. -/
inductive StandsFor (text : String) : Datum → Prop
  /-- The text is JSON. -/
  | json {v : Json} (h : Json.ofText? text = some v) : StandsFor text (.ofJson v)
  /-- The text is not JSON. -/
  | text (h : Json.ofText? text = none) : StandsFor text (.string text)

/-- The program reads exactly the value that a text stands for. -/
theorem readValue_eq_iff {text : String} {d : Datum} : readValue text = d ↔ StandsFor text d := by
  unfold readValue
  constructor
  · rintro rfl
    split
    case h_1 h => exact .json h
    case h_2 h => exact .text h
  · rintro (h | h) <;> rw [h]

/-- A text assigns a value to a field: the field is in front of the first equals sign, and what stands
behind it stands for the value. -/
def Assigns (text : String) (assigned : String × Datum) : Prop :=
  ∃ behind, text.toList = assigned.1.toList ++ '=' :: behind ∧ '=' ∉ assigned.1.toList ∧
    StandsFor (String.ofList behind) assigned.2

/-- The program reads exactly the assignment that a text makes. -/
theorem readAssignment_eq_ok_iff {text : String} {assigned : String × Datum} :
    readAssignment text = .ok assigned ↔ Assigns text assigned := by
  obtain ⟨field, value⟩ := assigned
  unfold readAssignment
  constructor
  · intro h
    have hsplit := List.takeWhile_append_dropWhile (p := (· ≠ '=')) (l := text.toList)
    rcases dropWhile_ne_cases text.toList '=' with hdrop | ⟨behind, hdrop⟩ <;>
      rw [hdrop] at h hsplit <;> cases h
    refine ⟨behind, ?_, ?_, readValue_eq_iff.mp rfl⟩
    · rw [String.toList_ofList]
      exact hsplit.symm
    · rw [String.toList_ofList]
      intro hmem
      have hne := List.all_eq_true.mp List.all_takeWhile _ hmem
      exact absurd rfl (of_decide_eq_true hne)
  · rintro ⟨behind, htext, hfield, hvalue⟩
    obtain rfl : readValue (String.ofList behind) = value := readValue_eq_iff.mpr hvalue
    have hall : ∀ c ∈ field.toList, decide (c ≠ '=') = true := by
      intro c hc
      exact decide_eq_true fun he => hfield (he ▸ hc)
    rw [htext, List.dropWhile_append_of_pos hall, List.takeWhile_append_of_pos hall]
    simp

/-- A text without an equals sign assigns nothing, and every other text assigns something. -/
theorem exists_assigns_iff {text : String} :
    (∃ assigned, Assigns text assigned) ↔ '=' ∈ text.toList := by
  constructor
  · rintro ⟨assigned, behind, htext, -⟩
    rw [htext]
    exact List.mem_append_right _ List.mem_cons_self
  · intro hmem
    rcases dropWhile_ne_cases text.toList '=' with hdrop | ⟨behind, hdrop⟩
    · exact absurd rfl (of_decide_eq_true (List.dropWhile_eq_nil_iff.mp hdrop _ hmem))
    · let field := String.ofList (text.toList.takeWhile (· ≠ '='))
      refine ⟨(field, readValue (String.ofList behind)), readAssignment_eq_ok_iff.mp ?_⟩
      rw [readAssignment, hdrop]

/-- Texts assign values if all of them have an equals sign. -/
theorem exists_forall₂_assigns_iff {texts : List String} :
    (∃ values, List.Forall₂ Assigns texts values) ↔ ∀ text ∈ texts, '=' ∈ text.toList := by
  induction texts with
  | nil => exact ⟨fun _ _ => nofun, fun _ => ⟨[], .nil⟩⟩
  | cons text texts ih =>
    rw [List.forall_mem_cons, ← ih, ← exists_assigns_iff]
    constructor
    · rintro ⟨values, h⟩
      cases h with
      | cons h hrest => exact ⟨⟨_, h⟩, _, hrest⟩
    · rintro ⟨⟨assigned, h⟩, values, hrest⟩
      exact ⟨assigned :: values, .cons h hrest⟩

/-! ## Tasks and operations -/

/-- The operation on a database that a task asks for. -/
inductive Task.Asks (d : Database) : Task → {α : Type} → Operation α → Prop
  /-- The filters are resolved in the table. -/
  | find {table text : String} {filters : FilterChain} (h : DescribesFilters text filters) :
    Asks d (.find table text) (.filter (d.table table) filters)
  /-- The fields of the records are read. -/
  | get (target : Target) (fields : List String) :
    Asks d (.get target fields) (.getFields ⟨d.table target.table, target.ids⟩ fields)
  /-- The values are written to the records. -/
  | set {target : Target} {assignments : List String} {values : List (String × Datum)}
      (h : List.Forall₂ Assigns assignments values) :
    Asks d (.set target assignments) (.setFields ⟨d.table target.table, target.ids⟩ values)
  /-- The records are deleted. -/
  | delete (target : Target) (force : Bool) :
    Asks d (.delete target force) (.delete ⟨d.table target.table, target.ids⟩)
  /-- The history of the records is read, as far as filters match it if there are any. -/
  | history {target : Target} {text? : Option String} {filters? : Option FilterChain}
      (h : Option.Rel DescribesFilters text? filters?) :
    Asks d (.history target text? false)
      (.historyRecords ⟨d.table target.table, target.ids⟩ filters?)
  /-- The same history is counted. -/
  | count {target : Target} {text? : Option String} {filters? : Option FilterChain}
      (h : Option.Rel DescribesFilters text? filters?) :
    Asks d (.history target text? true)
      (.historyCount ⟨d.table target.table, target.ids⟩ filters?)
  /-- The pipelines of the table are listed. -/
  | pipelines (table : String) : Asks d (.pipelines table) (.pipelines (d.table table))

/-- A task whose filter or one of whose assignments is not understood. -/
inductive Task.Unclear : Task → Prop
  /-- The filter is not JSON or not the wire form of filters. -/
  | find {table text : String} (h : ∀ filters, ¬ DescribesFilters text filters) :
    Unclear (.find table text)
  /-- The same in a history. -/
  | history {target : Target} {text : String} {count : Bool}
      (h : ∀ filters, ¬ DescribesFilters text filters) :
    Unclear (.history target (some text) count)
  /-- One of the assignments lacks an equals sign, whatever the others are. -/
  | set {target : Target} {assignments : List String} {text : String} (hmem : text ∈ assignments)
      (h : '=' ∉ text.toList) :
    Unclear (.set target assignments)

namespace Task

variable {d : Database} {task : Task} {job : Job}

/-- A task asks for an operation that sends a request. -/
theorem Asks.exists_plan {α : Type} {op : Operation α} (h : task.Asks d op) :
    ∃ own, op.plan = .inr own := by
  cases h <;> exact ⟨_, rfl⟩

/-- A filter that is left out is read as none. -/
theorem mapM_readFilter_eq_ok_iff {text? : Option String} {filters? : Option FilterChain} :
    text?.mapM readFilter = .ok filters? ↔ Option.Rel DescribesFilters text? filters? := by
  cases text? with
  | none =>
    constructor
    · intro h
      cases h
      exact .none
    · intro h
      cases h
      rfl
  | some text =>
    show some <$> readFilter text = .ok filters? ↔ _
    constructor
    · intro h
      cases hread : readFilter text with
      | error e =>
        rw [hread] at h
        cases h
      | ok filters =>
        rw [hread] at h
        cases h
        exact .some (readFilter_eq_ok_iff.mp hread)
    · intro h
      cases h with
      | some h =>
        rw [readFilter_eq_ok_iff.mpr h]
        rfl

/-- The job of a task is the operation that it asks for, and a text that is made of the result. -/
theorem exists_asks_of_job (h : task.job d = .ok job) :
    ∃ (α : Type) (op : Operation α) (shown : α → String),
      task.Asks d op ∧ job.call = (do return shown (← op.perform)) := by
  cases task with
  | find table text =>
    obtain ⟨filters, hfilters, hjob⟩ := bind_eq_ok_iff.mp h
    cases hjob
    exact ⟨_, _, _, .find (readFilter_eq_ok_iff.mp hfilters), rfl⟩
  | get target fields =>
    cases h
    exact ⟨_, _, _, .get target fields, rfl⟩
  | set target assignments =>
    obtain ⟨values, hvalues, hjob⟩ := bind_eq_ok_iff.mp h
    cases hjob
    have hassigns := (mapM_eq_ok_iff.mp hvalues).imp fun _ _ => readAssignment_eq_ok_iff.mp
    exact ⟨_, _, fun _ => countLine "Updated" target.ids, .set hassigns, rfl⟩
  | delete target force =>
    cases h
    exact ⟨_, _, fun _ => countLine "Deleted" target.ids, .delete target force, rfl⟩
  | history target text? count =>
    obtain ⟨filters?, hfilters, hjob⟩ := bind_eq_ok_iff.mp h
    have hrel := mapM_readFilter_eq_ok_iff.mp hfilters
    cases count with
    | false =>
      cases hjob
      exact ⟨_, _, _, .history hrel, rfl⟩
    | true =>
      cases hjob
      exact ⟨_, _, _, .count hrel, rfl⟩
  | pipelines table =>
    cases h
    exact ⟨_, _, _, .pipelines table, rfl⟩

/-- A task has no job exactly if it is not understood. -/
theorem unclear_iff : task.Unclear ↔ ∀ job, task.job d ≠ .ok job := by
  constructor
  · intro h job hjob
    obtain ⟨α, op, shown, hasks, -⟩ := exists_asks_of_job hjob
    cases h with
    | find hno =>
      cases hasks with
      | find h => exact hno _ h
    | history hno =>
      cases hasks with
      | history h =>
        cases h with
        | some h => exact hno _ h
      | count h =>
        cases h with
        | some h => exact hno _ h
    | set hmem hno =>
      cases hasks with
      | set h => exact hno (exists_forall₂_assigns_iff.mp ⟨_, h⟩ _ hmem)
  · intro h
    cases task with
    | get target fields => exact absurd rfl (h _)
    | delete target force => exact absurd rfl (h _)
    | pipelines table => exact absurd rfl (h _)
    | find table text =>
      refine .find fun filters hfilters => h (findJob d table filters) ?_
      rw [job, readFilter_eq_ok_iff.mpr hfilters]
      rfl
    | set target assignments =>
      by_contra hclear
      have hall : ∀ text ∈ assignments, '=' ∈ text.toList := by
        intro text hmem
        by_contra hno
        exact hclear (.set hmem hno)
      obtain ⟨values, hvalues⟩ := exists_forall₂_assigns_iff.mpr hall
      apply h (setJob d target values)
      rw [job, mapM_eq_ok_iff.mpr (hvalues.imp fun _ _ => readAssignment_eq_ok_iff.mpr)]
      rfl
    | history target text? count =>
      have hjob : ∀ filters?, ¬ Option.Rel DescribesFilters text? filters? := by
        intro filters? hrel
        apply h (if count then historyCountJob d target filters? else historyJob d target filters?)
        rw [job, mapM_readFilter_eq_ok_iff.mpr hrel]
        rfl
      cases text? with
      | none => exact absurd .none (hjob none)
      | some text => exact .history fun filters hfilters => hjob (some filters) (.some hfilters)

/-- Only the deletion of records has a question, unless it is forced. -/
theorem question?_of_job (h : task.job d = .ok job) :
    job.question?.isSome = true ↔ ∃ target, task = .delete target false := by
  cases task with
  | delete target force =>
    cases h
    cases force <;> simp [deleteJob]
  | get target fields =>
    cases h
    simp [getJob, Job.ofCall]
  | pipelines table =>
    cases h
    simp [pipelinesJob, Job.ofCall]
  | find table text =>
    obtain ⟨filters, -, hjob⟩ := bind_eq_ok_iff.mp h
    cases hjob
    simp [findJob, Job.ofCall]
  | set target assignments =>
    obtain ⟨values, -, hjob⟩ := bind_eq_ok_iff.mp h
    cases hjob
    simp [setJob, Job.ofCall]
  | history target text? count =>
    obtain ⟨filters?, -, hjob⟩ := bind_eq_ok_iff.mp h
    cases count <;> cases hjob <;> simp [historyJob, historyCountJob, Job.ofCall]

/-- A deletion that is not agreed to does nothing. -/
theorem run_of_declined {target : Target} {answer : String} (h : task.job d = .ok job)
    (htask : task = .delete target false) (hanswer : ¬ SaysYes answer) : job.run answer = pure "" := by
  have hno : Job.isYes answer = false := by
    rw [Bool.eq_false_iff]
    exact fun hyes => hanswer (isYes_iff.mp hyes)
  rw [Job.run, (question?_of_job h).mpr ⟨target, htask⟩, hno]
  rfl

/-- Every other job is done. -/
theorem run_of_agreed {answer : String} (h : task.job d = .ok job)
    (hanswer : ∀ target, task = .delete target false → SaysYes answer) : job.run answer = job.call := by
  have hsure : (job.question?.isSome && !Job.isYes answer) = false := by
    rw [Bool.eq_false_iff, ne_eq, Bool.and_eq_true, Bool.not_eq_true']
    rintro ⟨hquestion, hno⟩
    obtain ⟨target, htask⟩ := (question?_of_job h).mp hquestion
    rw [isYes_iff.mpr (hanswer target htask)] at hno
    cases hno
  rw [Job.run, hsure]
  rfl

end Task

/-! ## Command lines -/

namespace CommandLine

variable {c : CommandLine} {file : SettingsFile} {environment : List (String × String)}
  {answer : String} {log : Transcript}

/-- What a command line can send, with the line that its question is answered with: the requests that
are handed to the HTTP client, each with what comes back for it. -/
def Sends (c : CommandLine) (file : SettingsFile) (environment : List (String × String))
    (answer : String) (log : Transcript) : Prop :=
  match c.plan file environment with
  | .ok (.work _ job) => ∃ outcome, (job.run answer).Runs log outcome
  | .ok (.text _) | .error _ => log = []

/-- Nothing is to be asked of the server, or the command line cannot be carried out, or the records
are not to be deleted. -/
inductive StaysLocal (c : CommandLine) (file : SettingsFile) (environment : List (String × String))
    (answer : String) : Prop
  /-- The version is shown. -/
  | version (h : c.command = .version)
  /-- The settings cannot be loaded. -/
  | unconfigured {e : Error} (h : ClientSettings.load file environment = .error e)
  /-- Neither the command line nor the settings name a database. -/
  | noDatabase {s : ClientSettings} (h : ClientSettings.load file environment = .ok s)
      (hline : c.database = none) (hsettings : s.database = none)
  /-- A filter or an assignment is not understood. -/
  | unclear {task : Task} (h : c.command = .task task) (hunclear : task.Unclear)
  /-- Records would be deleted, but the answer is not yes. -/
  | declined {target : Target} (h : c.command = .task (.delete target false))
      (hanswer : ¬ SaysYes answer)

/-- The database that the tasks of a command line are about. -/
def databaseWith (c : CommandLine) (s : ClientSettings) (name : String) : Database :=
  ⟨name, ⟨c.token.or s.token, c.account.or s.account⟩⟩

/-- A command line comes to work for the server if it has a task, loaded settings and a database, and
the task has a job. -/
theorem plan_eq_work_iff {settings : ClientSettings} {job : Job} :
    c.plan file environment = .ok (.work settings job) ↔
      ∃ task s name, c.command = .task task ∧ ClientSettings.load file environment = .ok s ∧
        c.database.or s.database = some name ∧ task.job (c.databaseWith s name) = .ok job ∧
        settings = c.override s := by
  unfold plan
  cases hcommand : c.command with
  | version =>
    constructor
    · intro h
      cases h
    · rintro ⟨task, s, name, htask, -⟩
      cases htask
  | task task =>
    cases hload : ClientSettings.load file environment with
    | error e =>
      have hsettings : c.settings file environment = .error e := by
        rw [CommandLine.settings, hload]
        rfl
      dsimp only
      rw [hsettings]
      constructor
      · intro h
        cases h
      · rintro ⟨_, s, _, -, h, -⟩
        cases h
    | ok s =>
      have hsettings : c.settings file environment = .ok (c.override s) := by
        rw [CommandLine.settings, hload]
        rfl
      cases hname : c.database.or s.database with
      | none =>
        have hdatabase : (c.override s).database = none := hname
        simp only [hsettings, Except.mapError, bind, Except.bind, hdatabase]
        constructor
        · intro h
          cases h
        · rintro ⟨_, s', _, -, h, hname', -⟩
          cases h
          rw [hname] at hname'
          cases hname'
      | some name =>
        have hdatabase : (c.override s).database = some name := hname
        simp only [hsettings, Except.mapError, bind, Except.bind, hdatabase]
        constructor
        · intro h
          obtain ⟨found, hjob, hwork⟩ := bind_eq_ok_iff.mp h
          cases hwork
          exact ⟨task, s, name, rfl, rfl, hname, hjob, rfl⟩
        · rintro ⟨task', s', name', htask, h, hname', hjob, rfl⟩
          cases htask
          cases h
          rw [hname, Option.some_inj] at hname'
          subst hname'
          exact bind_eq_ok_iff.mpr ⟨job, hjob, rfl⟩

/-- A plan that has work to do sends what its job sends. -/
theorem sends_of_work {settings : ClientSettings} {job : Job}
    (h : c.plan file environment = .ok (.work settings job)) :
    c.Sends file environment answer log ↔ ∃ outcome, (job.run answer).Runs log outcome := by
  rw [Sends, h]

theorem sends_of_not_work
    (h : ∀ settings job, c.plan file environment ≠ .ok (.work settings job)) :
    c.Sends file environment answer log ↔ log = [] := by
  unfold Sends
  split
  case h_1 settings job hplan => exact absurd hplan (h settings job)
  case h_2 => exact Iff.rfl
  case h_3 => exact Iff.rfl

/-- A command line that stays local sends nothing. -/
theorem sends_of_staysLocal (h : c.StaysLocal file environment answer) :
    c.Sends file environment answer log ↔ log = [] := by
  by_cases hwork : ∃ settings job, c.plan file environment = .ok (.work settings job)
  · obtain ⟨settings, job, hplan⟩ := hwork
    obtain ⟨task, s, name, hcommand, hload, hname, hjob, -⟩ := plan_eq_work_iff.mp hplan
    -- there is work only for a deletion that is declined
    cases h with
    | version h =>
      rw [hcommand] at h
      cases h
    | unconfigured h =>
      rw [hload] at h
      cases h
    | noDatabase h hline hsettings =>
      rw [hload, Except.ok.injEq] at h
      rw [hline, h, hsettings] at hname
      cases hname
    | unclear h hunclear =>
      rw [hcommand, Command.task.injEq] at h
      rw [← h] at hunclear
      exact absurd hjob (Task.unclear_iff.mp hunclear job)
    | declined h hanswer =>
      rw [hcommand, Command.task.injEq] at h
      rw [sends_of_work hplan, Task.run_of_declined hjob h hanswer]
      constructor
      · rintro ⟨outcome, hruns⟩
        exact (Call.runs_pure_iff.mp hruns).1
      · rintro rfl
        exact ⟨_, Call.runs_pure_iff.mpr ⟨rfl, rfl⟩⟩
  · exact sends_of_not_work fun settings job hplan => hwork ⟨settings, job, hplan⟩

/-- A command line that does not stay local has a task, settings and a database, and sends what the
operation of the task sends. -/
theorem sends_of_not_staysLocal (h : ¬ c.StaysLocal file environment answer) :
    ∃ task s name, c.command = .task task ∧ ClientSettings.load file environment = .ok s ∧
      c.database.or s.database = some name ∧
      ∃ (α : Type) (op : Operation α), task.Asks (c.databaseWith s name) op ∧
        ∀ log, c.Sends file environment answer log ↔ ∃ outcome, op.perform.Runs log outcome := by
  cases hcommand : c.command with
  | version => exact absurd (.version hcommand) h
  | task task =>
    cases hload : ClientSettings.load file environment with
    | error e => exact absurd (.unconfigured hload) h
    | ok s =>
      cases hname : c.database.or s.database with
      | none =>
        obtain ⟨hline, hsettings⟩ := Option.or_eq_none_iff.mp hname
        exact absurd (.noDatabase hload hline hsettings) h
      | some name =>
        cases hjob : task.job (c.databaseWith s name) with
        | error e =>
          have hunclear : task.Unclear := Task.unclear_iff.mpr fun job hok => by
            rw [hjob] at hok
            cases hok
          exact absurd (.unclear hcommand hunclear) h
        | ok job =>
          refine ⟨task, s, name, rfl, rfl, hname, ?_⟩
          obtain ⟨α, op, shown, hasks, hcall⟩ := Task.exists_asks_of_job hjob
          have hplan := plan_eq_work_iff.mpr ⟨task, s, name, hcommand, hload, hname, hjob, rfl⟩
          have hrun : job.run answer = job.call := Task.run_of_agreed hjob fun target htask => by
            by_contra hanswer
            exact h (.declined (htask ▸ hcommand) hanswer)
          refine ⟨α, op, hasks, fun log => ?_⟩
          rw [sends_of_work hplan, hrun, hcall]
          constructor
          · rintro ⟨outcome, hruns⟩
            obtain ⟨found, hfound, -⟩ := Call.runs_bind_pure_iff.mp hruns
            exact ⟨found, hfound⟩
          · rintro ⟨found, hfound⟩
            exact ⟨_, Call.runs_bind_pure_iff.mpr ⟨found, hfound, rfl⟩⟩

/-- A command line is not half carried out. If the command line, the settings and the answer stay
local, nothing is sent. Otherwise the command line has a task, the settings can be loaded and the
command line or the settings name a database. Then:

* the task asks for an operation on this database, and what is sent is what this operation sends;
* this is one request, whatever comes back for it, and the request has the controller, the method and
  the parameters of the operation, the names of the table and of the database and, where it is about
  certain records, their identifiers;
* these are the identifiers in the arguments of the command line, in their order and as often as they
  are there, and the command is the one that the arguments write, with its table, its fields or
  assignments, its filter and its flags. -/
theorem one_request_or_none (c : CommandLine) (file : SettingsFile)
    (environment : List (String × String)) (answer : String) :
    (c.StaysLocal file environment answer →
      ∀ log, c.Sends file environment answer log ↔ log = []) ∧
    (¬ c.StaysLocal file environment answer →
      ∃ task s name, c.command = .task task ∧ ClientSettings.load file environment = .ok s ∧
        c.database.or s.database = some name ∧
        ∃ (α : Type) (op : Operation α) (own sent : Request), task.Asks (c.databaseWith s name) op ∧
          op.plan = .inr own ∧ Operation.InContext op.table op.ids? own sent ∧
          (∀ log, c.Sends file environment answer log ↔
            ∃ outcome, op.perform.Runs log outcome) ∧
          ∀ log, c.Sends file environment answer log ↔ ∃ reply, log = [(sent, reply)]) ∧
    (∀ arguments task, ofArguments arguments = .ok c → c.command = .task task →
      task.ids = idsIn arguments) ∧
    ∀ arguments, ofArguments arguments = .ok c → c.command.WrittenIn arguments := by
  refine ⟨fun h log => sends_of_staysLocal h, fun h => ?_, fun _ _ => ids_of_ofArguments,
    fun _ => writtenIn_of_ofArguments⟩
  obtain ⟨task, s, name, hcommand, hload, hname, α, op, hasks, hsends⟩ := sends_of_not_staysLocal h
  obtain ⟨own, hplan⟩ := hasks.exists_plan
  refine ⟨task, s, name, hcommand, hload, hname, α, op, own, op.sent own, hasks, hplan,
    op.inContext_sent own, hsends, fun log => ?_⟩
  rw [hsends log, op.perform_eq, hplan]
  constructor
  · rintro ⟨outcome, hruns⟩
    obtain ⟨reply, hlog, -⟩ := Call.runs_single_iff.mp hruns
    exact ⟨reply, hlog⟩
  · rintro ⟨reply, hlog⟩
    exact ⟨_, Call.runs_single_iff.mpr ⟨reply, hlog, rfl⟩⟩

/-- A task on a database that the command line names, and nothing else. -/
def onFilm (task : Task) : CommandLine where
  command := .task task
  settingsPath := none
  serverUrl := none
  token := none
  database := some "film"
  account := none
  logDirectory := none
  logLevel := none
  noColor := false

/-- Two assignments of which the second lacks its equals sign, and the deletion of records one of
which is named twice, with two answers. -/
theorem onFilm_one_request_or_none :
    let writing := onFilm (.set ⟨"task", ["3"]⟩ ["artist=carol", "status"])
    let deletion := onFilm (.delete ⟨"task", ["3", "1", "3"]⟩ false)
    (∀ log, writing.Sends .notGiven [] "" log ↔ log = []) ∧
      (∀ log, deletion.Sends .notGiven [] "yes, all" log ↔ log = []) ∧
      (∃ sent, sent.method = "del_in_id" ∧ sent.get? "db" = some (.string "film") ∧
        sent.get? "id_array" = some (.array [.string "3", .string "1", .string "3"]) ∧
        ∀ log, deletion.Sends .notGiven [] " Yes\n" log ↔ ∃ reply, log = [(sent, reply)]) ∧
      ofArguments ["-dfilm", "delete", "--id", "3", "task", "--id=1", "--id", "3"] = .ok deletion ∧
      idsIn ["-dfilm", "delete", "--id", "3", "task", "--id=1", "--id", "3"] = ["3", "1", "3"] ∧
      deletion.command.WrittenIn ["-dfilm", "delete", "--id", "3", "task", "--id=1", "--id", "3"] := by
  intro writing deletion
  have hread : ofArguments ["-dfilm", "delete", "--id", "3", "task", "--id=1", "--id", "3"] =
      .ok deletion := rfl
  refine ⟨?_, ?_, ?_, hread, ?_, (one_request_or_none deletion .notGiven [] "").2.2.2 _ hread⟩
  · refine (one_request_or_none writing .notGiven [] "").1 (.unclear rfl ?_)
    exact .set (List.mem_cons_of_mem _ List.mem_cons_self) (by decide)
  · refine (one_request_or_none deletion .notGiven [] "yes, all").1 (.declined rfl ?_)
    rw [← isYes_iff]
    decide
  · have hgoes : ¬ deletion.StaysLocal .notGiven [] " Yes\n" := by
      rintro (h | h | ⟨h, hline, -⟩ | ⟨h, hunclear⟩ | ⟨h, hanswer⟩)
      · cases h
      · cases h
      · cases hline
      · cases h
        cases hunclear
      · exact hanswer (isYes_iff.mp (by decide))
    obtain ⟨task, s, name, htask, -, hname, α, op, own, sent, hasks, hplan, hsent, -, hone⟩ :=
      (one_request_or_none deletion .notGiven [] " Yes\n").2.1 hgoes
    cases htask
    cases hname
    cases hasks
    cases hplan
    exact ⟨sent, hsent.method, hsent.database, hsent.ids _ rfl, hone⟩
  · exact ((one_request_or_none deletion .notGiven [] "").2.2.1 _ _ hread rfl).symm

end CommandLine

end RemoteTable
