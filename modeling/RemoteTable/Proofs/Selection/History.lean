import Mathlib.Tactic.ByContra
import RemoteTable.Proofs.Exchange
import RemoteTable.Proofs.Filter.Combination
import RemoteTable.Proofs.Filter.Evaluation
import RemoteTable.Proofs.Response
import RemoteTable.Table

/-!
# The history of a selection

The records of a selection's history and their number are asked for with one request each, and both
requests carry the same filters: the selection's tasks, and the caller's filters behind a
conjunction. So a server that counts what it returns gives a count that agrees with the records
(`Selection.historyCount_agrees`). The conjunction does not group: a disjunct among the caller's
filters is a way past the selection's tasks, and when it is one is said by
`Selection.historyFilters_scoped`.
-/

namespace RemoteTable

/-! ## The requests -/

namespace Table

variable (t : Table) (filters : FilterChain)

/-- The request for the history records that filters match. -/
def recordsRequest : Request :=
  ((Request.call "c_history" "get_with_filter").param "field_array"
    (Json.ofTexts (Record.fields HistoryRecord))).param "filter_array"
    (t.formatFilters filters).toWire

/-- The request for the number of these records. -/
def countRequest : Request :=
  (Request.call "c_history" "count_with_filter").param "filter_array"
    (t.formatFilters filters).toWire

/-- The records of a history are read with one request. -/
theorem historyRecords_eq_single :
    t.historyRecords filters = Call.single (t.addressed (t.recordsRequest filters)) fun reply =>
      accepted (t.recordsRequest filters) reply >>= Record.ofResponse := by
  show (t.call (t.recordsRequest filters) >>= fun response => Call.ofExcept _) = _
  rw [call_eq_single, Call.single_bind fun _ => rfl]

theorem historyCount_eq_single :
    t.historyCount filters = Call.single (t.addressed (t.countRequest filters)) fun reply =>
      accepted (t.countRequest filters) reply >>= Response.count := by
  show (t.call (t.countRequest filters) >>= fun response => Call.ofExcept _) = _
  rw [call_eq_single, Call.single_bind fun _ => rfl]

end Table

namespace Selection

variable (s : Selection) (extra : Option FilterChain)

/-- The filter that the records of the selection's tasks pass. -/
def scope : Filter :=
  .ofValue "#task_id" (Datum.ofTexts s.ids)

/-- The places of the selection's history filters as they are sent: the tasks, and behind a
conjunction the places of the caller's filters in their order, with wire names for the fields. -/
def historyWire : List Json :=
  .array [.string "#task_id", .string "in", .ofTexts s.ids] ::
    match extra with
    | some filters =>
      .string "and" :: filters.items.map fun item => (item.qualify s.table.name).toWire
    | none => []

/-- The request for the history records of the selection, as it leaves. -/
def sentRecords : Request :=
  s.table.addressed (s.table.recordsRequest (s.historyFilters extra))

/-- The request for the number of these records, as it leaves. -/
def sentCount : Request :=
  s.table.addressed (s.table.countRequest (s.historyFilters extra))

/-- The scope of a selection on the wire names its identifiers; its field is qualified already. -/
theorem toWire_scope :
    (ChainItem.qualify s.table.name (.filter s.scope)).toWire =
      .array [.string "#task_id", .string "in", .ofTexts s.ids] := by
  have hsystem : isQualified "#task_id" = true := by decide
  have hfield : RemoteTable.qualify s.table.name s.scope.field = "#task_id" := if_pos hsystem
  rw [ChainItem.qualify, hfield, ChainItem.toWire, Filter.toWire, ← Datum.toJson_ofTexts]
  rfl

/-- The filters of a history on the wire are the scope and the caller's places behind it. -/
theorem toWire_historyFilters :
    (s.table.formatFilters (s.historyFilters extra)).toWire = .array (s.historyWire extra) := by
  rw [Table.formatFilters, FilterChain.toWire, FilterChain.items_qualify, List.map_map]
  cases extra with
  | none =>
    show Json.array [(ChainItem.qualify s.table.name (.filter s.scope)).toWire] = _
    rw [toWire_scope]
    rfl
  | some filters =>
    have hitems : (s.historyFilters (some filters)).items =
        .filter s.scope :: .join .and :: filters.items :=
      FilterChain.items_combine _ _ _
    rw [hitems, List.map_cons, List.map_cons, Function.comp_apply, toWire_scope]
    rfl

/-! ## The count agrees with the records -/

/-- What both requests say about the table and the filters. -/
theorem get?_sent {request : Request} (htoken : request.get? "token" = none)
    (hfilters : request.get? "filter_array" = some (.array (s.historyWire extra))) :
    let sent := s.table.addressed request
    sent.get? "db" = some (.string s.table.database.name) ∧
      sent.get? "module" = some (.string s.table.name) ∧
      sent.get? "token" = s.table.token.map .string ∧
      sent.get? "filter_array" = some (.array (s.historyWire extra)) := by
  intro sent
  have hname : "filter_array" ∉ ["db", "module", "token"] := by decide
  exact ⟨s.table.get?_addressed_db request, s.table.get?_addressed_module request,
    s.table.get?_addressed_token htoken, (s.table.get?_addressed request hname).trans hfilters⟩

theorem get?_sentRecords :
    (s.sentRecords extra).get? "db" = some (.string s.table.database.name) ∧
      (s.sentRecords extra).get? "module" = some (.string s.table.name) ∧
      (s.sentRecords extra).get? "token" = s.table.token.map .string ∧
      (s.sentRecords extra).get? "filter_array" = some (.array (s.historyWire extra)) := by
  apply get?_sent
  · simp [Table.recordsRequest, Request.get?_param]
  · rw [Table.recordsRequest, Request.get?_param, if_pos rfl, toWire_historyFilters]

theorem get?_sentCount :
    (s.sentCount extra).get? "db" = some (.string s.table.database.name) ∧
      (s.sentCount extra).get? "module" = some (.string s.table.name) ∧
      (s.sentCount extra).get? "token" = s.table.token.map .string ∧
      (s.sentCount extra).get? "filter_array" = some (.array (s.historyWire extra)) := by
  apply get?_sent
  · simp [Table.countRequest, Request.get?_param]
  · rw [Table.countRequest, Request.get?_param, if_pos rfl, toWire_historyFilters]

/-- Whether a server counts the history records that it returns: a request for the fields of records
is answered with rows of the width of a record, and a request for their number with the same filters,
of the same table and under the same token, with the number of these rows. -/
def CountsHistory (answer : Request → Reply) : Prop :=
  ∀ records count : Request,
    records.controller = "c_history" → records.method = "get_with_filter" →
    records.get? "field_array" = some (.ofTexts (Record.fields HistoryRecord)) →
    count.controller = "c_history" → count.method = "count_with_filter" →
    (∀ name ∈ ["db", "module", "token", "filter_array"], records.get? name = count.get? name) →
    ∃ response counted rows, answer records = .ok response ∧ answer count = .ok counted ∧
      response.CarriesRows (Record.fields HistoryRecord).length rows ∧
      counted.CarriesCount rows.length

/-- A server that counts what it returns is asked both questions about the same records. -/
theorem outcomes_of_countsHistory {answer : Request → Reply} (h : CountsHistory answer) :
    ∃ records, Call.outcome answer (s.historyRecords extra) = .ok records ∧
      Call.outcome answer (s.historyCount extra) = .ok records.length := by
  obtain ⟨hdb, hmodule, htoken, hfilters⟩ := s.get?_sentRecords extra
  obtain ⟨hdb', hmodule', htoken', hfilters'⟩ := s.get?_sentCount extra
  have hfields : (s.sentRecords extra).get? "field_array" =
      some (.ofTexts (Record.fields HistoryRecord)) := by
    rw [sentRecords, Table.get?_addressed _ _ (by decide)]
    simp [Table.recordsRequest, Request.get?_param]
  have hsame : ∀ name ∈ ["db", "module", "token", "filter_array"],
      (s.sentRecords extra).get? name = (s.sentCount extra).get? name := by
    simp [hdb, hmodule, htoken, hfilters, hdb', hmodule', htoken', hfilters']
  obtain ⟨response, counted, rows, hresponse, hcounted, hrows, hcount⟩ :=
    h (s.sentRecords extra) (s.sentCount extra) (Table.controller_addressed ..)
      (Table.method_addressed ..) hfields (Table.controller_addressed ..)
      (Table.method_addressed ..) hsame
  obtain ⟨records, hrecords, hlength⟩ := hrows.exists_records
  refine ⟨records, ?_, ?_⟩
  · show Call.outcome answer (s.table.historyRecords (s.historyFilters extra)) = _
    rw [Table.historyRecords_eq_single, Call.outcome_single]
    show Table.accepted _ (answer (s.sentRecords extra)) >>= _ = _
    rw [hresponse, Table.accepted_ok _ hrows.success]
    exact hrecords
  · show Call.outcome answer (s.table.historyCount (s.historyFilters extra)) = _
    rw [Table.historyCount_eq_single, Call.outcome_single]
    show Table.accepted _ (answer (s.sentCount extra)) >>= _ = _
    rw [hcounted, Table.accepted_ok _ hcount.success, hlength]
    exact hcount.count_eq

/-- The records of a selection's history and their number are asked for alike:

* each is one request, `get_with_filter` and `count_with_filter`;
* the two requests have the same database, table and token, and the same filters: the selection's
  tasks, and behind a conjunction the caller's filters in their order with wire names for the fields;
* with a server that counts what it returns, the count is the number of the records. -/
theorem historyCount_agrees :
    (∃ result, s.historyRecords extra = Call.single (s.sentRecords extra) result) ∧
    (∃ result, s.historyCount extra = Call.single (s.sentCount extra) result) ∧
    (s.sentRecords extra).controller = "c_history" ∧
    (s.sentRecords extra).method = "get_with_filter" ∧
    (s.sentCount extra).controller = "c_history" ∧
    (s.sentCount extra).method = "count_with_filter" ∧
    (∀ sent ∈ [s.sentRecords extra, s.sentCount extra],
      sent.get? "db" = some (.string s.table.database.name) ∧
      sent.get? "module" = some (.string s.table.name) ∧
      sent.get? "token" = s.table.token.map .string ∧
      sent.get? "filter_array" = some (.array (s.historyWire extra))) ∧
    ∀ answer, CountsHistory answer →
      ∃ records, Call.outcome answer (s.historyRecords extra) = .ok records ∧
        Call.outcome answer (s.historyCount extra) = .ok records.length := by
  refine ⟨⟨_, s.table.historyRecords_eq_single _⟩, ⟨_, s.table.historyCount_eq_single _⟩,
    Table.controller_addressed .., Table.method_addressed .., Table.controller_addressed ..,
    Table.method_addressed .., ?_, ?_⟩
  · intro sent hsent
    rcases List.mem_cons.mp hsent with rfl | hsent
    · exact s.get?_sentRecords extra
    · obtain rfl := List.mem_singleton.mp hsent
      exact s.get?_sentCount extra
  · intro answer h
    exact s.outcomes_of_countsHistory extra h

/-- A server that has two history records for every question, and counts them with a text. -/
def twoRecords (request : Request) : Reply :=
  if request.method = "get_with_filter" then
    .ok (.ok (.array [.array ((List.replicate 9 Datum.null).map Datum.toJson),
      .array (["1", "7", "a", "b", "c", "d", "e", "f", "g"].map Json.string)]))
  else .ok (.ok (.string " +02"))

/-- The two records are counted for a task that is selected twice, and for a disjunction. -/
theorem twoRecords_historyCount_agrees :
    CountsHistory twoRecords ∧
      let tasks : Selection := ⟨⟨"shot_task", ⟨"db", ⟨some "token", none⟩⟩, none⟩, ["7", "7"]⟩
      let extra : FilterChain := ⟨.ofValue "step" (.string "comp"), [(.or, .ofValue "time" .null)]⟩
      ∃ records, Call.outcome twoRecords (tasks.historyRecords (some extra)) = .ok records ∧
        Call.outcome twoRecords (tasks.historyCount (some extra)) = .ok records.length := by
  have hcounts : CountsHistory twoRecords := by
    intro records count _ hrecords _ _ hcount _
    refine ⟨_, _, [List.replicate 9 .null,
        ["1", "7", "a", "b", "c", "d", "e", "f", "g"].map Datum.string],
      if_pos hrecords, if_neg (by rw [hcount]; decide), ⟨rfl, .inl rfl, ?_⟩, ?_⟩
    · decide
    · exact ⟨rfl, by decide, .inr ⟨" +02", rfl,
        .plus [' '] [] 1 (List.forall_mem_singleton.mpr (by decide)) (List.forall_mem_nil _)⟩⟩
  exact ⟨hcounts, (historyCount_agrees _ _).2.2.2.2.2.2.2 twoRecords hcounts⟩

/-! ## The scope of the history -/

/-- Whether the history filters are true only of records of the selection's tasks, whatever filters
are true of a record. -/
def StaysInScope : Prop :=
  ∀ truth : Filter → Bool, (s.historyFilters extra).evaluate truth = true → truth s.scope = true

variable {s} {filters : FilterChain}

/-- The history filters are true of a record of the selection's tasks of which the caller's filters
are true, and of any record of which a disjunct of these is true with all conjuncts behind it. -/
theorem evaluate_historyFilters_eq_true_iff {truth : Filter → Bool} :
    (s.historyFilters (some filters)).evaluate truth = true ↔
      truth s.scope = true ∧ filters.evaluate truth = true ∨
        FilterChain.DisjunctHolds truth filters.rest :=
  FilterChain.evaluate_single_and_eq_true_iff s.scope filters

/-- A record outside the scope passes at a disjunct behind which the scope is not asked for again. -/
theorem exists_leaves_scope {before after : List (Join × Filter)} {f : Filter}
    (hrest : filters.rest = before ++ (.or, f) :: after) (hf : f ≠ s.scope)
    (hafter : (.and, s.scope) ∉ after) :
    ∃ truth : Filter → Bool, (s.historyFilters (some filters)).evaluate truth = true ∧
      truth s.scope = false := by
  classical
  -- the record of which every filter is true but the scope
  refine ⟨fun g => decide (g ≠ s.scope), ?_, by simp⟩
  refine evaluate_historyFilters_eq_true_iff.mpr (.inr ⟨before, f, after, hrest, by simp [hf], ?_⟩)
  intro g hg
  have hne : g ≠ s.scope := by
    rintro rfl
    exact hafter hg
  simp [hne]

/-- The filters stay in scope exactly when every disjunct is the scope itself or is followed by a
conjunction with it. -/
theorem staysInScope_iff :
    s.StaysInScope (some filters) ↔
      ∀ before f after, filters.rest = before ++ (.or, f) :: after →
        f = s.scope ∨ (.and, s.scope) ∈ after := by
  constructor
  · intro h before f after hrest
    by_contra hneither
    rw [not_or] at hneither
    obtain ⟨truth, htrue, hscope⟩ := exists_leaves_scope hrest hneither.1 hneither.2
    rw [h truth htrue] at hscope
    cases hscope
  · intro h truth htrue
    rcases evaluate_historyFilters_eq_true_iff.mp htrue with ⟨hscope, -⟩ | hdisjunct
    · exact hscope
    · obtain ⟨before, f, after, hrest, hf, hafter⟩ := hdisjunct
      rcases h before f after hrest with rfl | hmem
      · exact hf
      · exact hafter s.scope hmem

variable (s)

/-- What the selection's tasks have to do with the filters of its history, a chain being evaluated
from left to right:

* without filters of the caller, the filters are the tasks;
* with them, they are true of the records of the tasks of which the caller's filters are true, and
  besides of every record of which a disjunct of these is true with all conjuncts behind it;
* so they stay in scope exactly when every disjunct is the scope itself or is followed by a
  conjunction with it, and in particular when the caller joins by conjunctions only. -/
theorem historyFilters_scoped :
    (∀ truth, (s.historyFilters none).evaluate truth = truth s.scope) ∧
    (∀ filters truth, (s.historyFilters (some filters)).evaluate truth = true ↔
      truth s.scope = true ∧ filters.evaluate truth = true ∨
        FilterChain.DisjunctHolds truth filters.rest) ∧
    (∀ filters, s.StaysInScope (some filters) ↔
      ∀ before f after, filters.rest = before ++ (.or, f) :: after →
        f = s.scope ∨ (.and, s.scope) ∈ after) ∧
    ∀ filters, (∀ pair ∈ filters.rest, pair.1 = .and) → s.StaysInScope (some filters) := by
  refine ⟨fun _ => rfl, fun _ _ => evaluate_historyFilters_eq_true_iff, fun _ => staysInScope_iff, ?_⟩
  intro filters hand
  refine staysInScope_iff.mpr fun before f after hrest => ?_
  have hor : (Join.or, f) ∈ filters.rest := by simp [hrest]
  cases hand _ hor

/-- A selection of one task. -/
def oneTask : Selection :=
  ⟨⟨"shot_task", ⟨"db", ⟨none, none⟩⟩, none⟩, ["1"]⟩

/-- A conjunction stays in scope, and so does a disjunction behind which the scope is asked for
again. -/
theorem repeated_scope_historyFilters_scoped :
    let step : Filter := .ofValue "step" (.string "comp")
    let status : Filter := .ofValue "status" (.string "Check")
    oneTask.StaysInScope (some ⟨step, [(.and, status)]⟩) ∧
      oneTask.StaysInScope (some ⟨step, [(.or, status), (.and, oneTask.scope)]⟩) := by
  intro step status
  obtain ⟨-, -, hiff, hand⟩ := historyFilters_scoped oneTask
  constructor
  · exact hand _ (by simp)
  · refine (hiff _).mpr fun before f after hrest => .inr ?_
    obtain _ | ⟨pair, _ | ⟨pair', before⟩⟩ := before
    · obtain ⟨-, rfl⟩ := List.cons.inj hrest
      exact List.mem_singleton_self _
    · -- the second place is a conjunction
      cases hrest
    · have hlength := congrArg List.length hrest
      simp at hlength

/-- A disjunct of the caller is true of a record of another task, and so are the history filters. -/
theorem disjunction_leaves_scope :
    let filters : FilterChain :=
      ⟨.ofValue "step" (.string "comp"), [(.or, .ofValue "status" (.string "Check"))]⟩
    let truth : Filter → Bool := fun f => f.field == "status"
    (oneTask.historyFilters (some filters)).evaluate truth = true ∧ truth oneTask.scope = false := by
  decide

end Selection

end RemoteTable
