import RemoteTable.Proofs.Datum.Json
import RemoteTable.Proofs.Members
import RemoteTable.Proofs.Operation

/-!
# Writes

Values are assigned to names, and the table makes one wire name of every spelling of a field. A write
sends one value for each wire name, the one that is assigned last (`Selection.IsLastAssigned`), as it
is, and it sends them to the selected records (`Selection.IsWrite`). What it sends depends on the
order of the assignments to one wire name, and on no other order (`Selection.writes_last_assigned`).
-/

namespace RemoteTable

namespace Selection

/-- Whether a value is the last one of those assigned to a wire name, whatever the spellings are. -/
def IsLastAssigned (s : Selection) (values : List (String × Datum)) (key : String)
    (value : Datum) : Prop :=
  ∃ before name after, values = before ++ (name, value) :: after ∧ s.table.field name = key ∧
    ∀ later ∈ after, s.table.field later.1 ≠ key

/-- Whether a request writes assigned values to the records of a selection. -/
structure IsWrite (s : Selection) (values : List (String × Datum)) (sent : Request) : Prop where
  /-- The group of methods is that of the tables. -/
  controller : sent.controller = "c_orm"
  /-- The method writes. -/
  method : sent.method = "set_in_id"
  /-- The database is that of the table. -/
  database : sent.get? "db" = some (.string s.table.database.name)
  /-- The table is that of the selection. -/
  table : sent.get? "module" = some (.string s.table.name)
  /-- The records are the selected ones, all of them and no others. -/
  ids : sent.get? "id_array" = some (.array (s.ids.map .string))
  /-- The data are an object with one member for each wire name of an assignment, and for no other
  name. The member is the last value that is assigned to the name, and a value arrives as it is. -/
  data : ∃ data : Members Json, sent.get? "sign_data_array" = some (.object data) ∧
    data.names.Nodup ∧
    (∀ key, key ∈ data.names ↔ ∃ assigned ∈ values, s.table.field assigned.1 = key) ∧
    (∀ key v, data.get? key = some v ↔
      ∃ value, s.IsLastAssigned values key value ∧ value.toJson = v) ∧
    ∀ key v, s.IsLastAssigned values key (.ofJson v) → data.get? key = some v

variable {s : Selection} {values values' : List (String × Datum)} {key : String} {value : Datum}
variable {v : Json}

/-! ## Assignments -/

/-- The value that was assigned last is found from the end. -/
theorem isLastAssigned_iff :
    s.IsLastAssigned values key value ↔
      ∃ name, values.reverse.find? (s.table.field ·.1 = key) = some (name, value) := by
  simp only [find?_reverse_eq_some_iff, decide_eq_true_eq, decide_eq_false_iff_not]
  constructor
  · rintro ⟨before, name, after, h⟩
    exact ⟨name, before, after, h⟩
  · rintro ⟨name, before, after, h⟩
    exact ⟨before, name, after, h⟩

/-- A wire name has the value that is assigned to it last. -/
theorem get?_assignments_eq_some_iff :
    (s.assignments values).get? key = some v ↔
      ∃ value, s.IsLastAssigned values key value ∧ value.toJson = v := by
  have hlast : (s.assignments values).get? key =
      (values.reverse.find? (s.table.field ·.1 = key)).map fun assigned => assigned.2.toJson := by
    rw [assignments, Members.get?_ofList, Members.get?, ← List.map_reverse, List.find?_map,
      Option.map_map]
    rfl
  simp only [hlast, isLastAssigned_iff, Option.map_eq_some_iff]
  constructor
  · rintro ⟨⟨name, value⟩, hfound, rfl⟩
    exact ⟨value, ⟨name, hfound⟩, rfl⟩
  · rintro ⟨value, ⟨name, hfound⟩, rfl⟩
    exact ⟨(name, value), hfound, rfl⟩

/-- The wire names are those of the assignments. -/
theorem mem_names_assignments_iff :
    key ∈ (s.assignments values).names ↔ ∃ assigned ∈ values, s.table.field assigned.1 = key := by
  have hfound : (∃ found, values.reverse.find? (s.table.field ·.1 = key) = some found) ↔
      ∃ assigned ∈ values, s.table.field assigned.1 = key := by
    rw [← Option.isSome_iff_exists, List.find?_isSome]
    simp
  rw [Members.mem_names_iff, ← hfound]
  simp only [get?_assignments_eq_some_iff, isLastAssigned_iff]
  constructor
  · rintro ⟨-, value, ⟨name, h⟩, -⟩
    exact ⟨(name, value), h⟩
  · rintro ⟨⟨name, value⟩, h⟩
    exact ⟨value.toJson, value, ⟨name, h⟩, rfl⟩

/-- Only the order of the assignments to one wire name matters. -/
theorem assignments_congr (h : ∀ key,
      values'.filter (s.table.field ·.1 = key) = values.filter (s.table.field ·.1 = key)) :
    s.assignments values' = s.assignments values := by
  refine Members.ofList_congr fun key => ?_
  rw [List.filter_map, List.filter_map]
  exact congrArg (List.map _) (h key)

/-! ## Requests -/

/-- The request that is sent is a write of the values. -/
theorem isWrite_sent (s : Selection) (values : List (String × Datum)) :
    s.IsWrite values ((Operation.setFields s values).sent (Operation.writingPlan s.table values)) := by
  have hcontext := (Operation.setFields s values).inContext_sent (Operation.writingPlan s.table values)
  refine ⟨hcontext.controller, hcontext.method, hcontext.database, hcontext.table,
    hcontext.ids s.ids rfl, s.assignments values, ?_, ?_, fun key => mem_names_assignments_iff,
    fun key v => get?_assignments_eq_some_iff, fun key v h => ?_⟩
  · rw [hcontext.others "sign_data_array" (by decide) fun h => absurd h (by decide)]
    rfl
  · exact (Members.sorted_ofList _).nodup_names
  · exact get?_assignments_eq_some_iff.mpr ⟨_, h, Datum.toJson_ofJson v⟩

/-- A write sends one value for each wire name. Whatever is assigned, and whatever is replied:

* exactly one request is sent, which writes the last value that is assigned to each wire name, as it
  is, to all selected records and to no others;
* assignments to different wire names can change their places, so that as long as the assignments to
  every single wire name keep their order, the write is the same. -/
theorem writes_last_assigned (s : Selection) (values : List (String × Datum)) :
    (∃ sent, s.IsWrite values sent ∧
      (∀ log outcome, (s.setFields values).Runs log outcome → ∃ reply, log = [(sent, reply)]) ∧
      ∀ reply, ∃ outcome, (s.setFields values).Runs [(sent, reply)] outcome) ∧
    ∀ values', (∀ key, values'.filter (s.table.field ·.1 = key) =
        values.filter (s.table.field ·.1 = key)) → s.setFields values' = s.setFields values := by
  have hsingle := (Operation.setFields s values).perform_eq
  constructor
  · refine ⟨_, s.isWrite_sent values, fun log outcome hruns => ?_, fun reply => ?_⟩
    · change (Operation.setFields s values).perform.Runs log outcome at hruns
      rw [hsingle] at hruns
      obtain ⟨reply, hlog, -⟩ := Call.runs_single_iff.mp hruns
      exact ⟨reply, hlog⟩
    · show ∃ outcome, (Operation.setFields s values).perform.Runs _ outcome
      rw [hsingle]
      exact ⟨_, Call.runs_single_iff.mpr ⟨reply, rfl, rfl⟩⟩
  · intro values' h
    rw [setFields, setFields, assignments_congr h]

/-- A field is assigned under two spellings, and another one between them: the last value of the first
one is sent, an integer that no double is equal to, and the other assignment could stand in front. -/
theorem respelled_writes_last_assigned :
    let s : Selection := ⟨⟨"task", ⟨"db", ⟨none, none⟩⟩, none⟩, ["7", "3"]⟩
    let large : Datum := .number (.integer ⟨9007199254740993, by decide⟩)
    let values : List (String × Datum) :=
      [("frame", .null), ("status", .array [.null]), ("task.frame", large)]
    (∃ (sent : Request) (data : Members Json), s.IsWrite values sent ∧
      sent.get? "sign_data_array" = some (.object data) ∧
      data.get? "task.frame" = some (.ofInt 9007199254740993) ∧
      data.get? "task.status" = some (.array [.null]) ∧ data.get? "frame" = none) ∧
    s.setFields [("status", .array [.null]), ("frame", .null), ("task.frame", large)] =
      s.setFields values := by
  intro s large values
  obtain ⟨⟨sent, hsent, -, -⟩, hmoved⟩ := writes_last_assigned s values
  constructor
  · obtain ⟨data, hdata, -, hnames, -, hlast⟩ := hsent.data
    refine ⟨sent, data, hsent, hdata, ?_, ?_, ?_⟩
    · exact hlast _ _ ⟨[("frame", .null), ("status", .array [.null])], "task.frame", [], rfl,
        by decide, by simp⟩
    · exact hlast _ _ ⟨[("frame", .null)], "status", [("task.frame", large)], rfl, by decide,
        by decide⟩
    · refine Option.eq_none_iff_forall_ne_some.mpr fun v hv => ?_
      have hname := (hnames "frame").mp (Members.mem_names_iff.mpr ⟨v, hv⟩)
      revert hname
      decide
  · refine hmoved _ fun key => ?_
    have hne : s.table.field "frame" ≠ s.table.field "status" := by decide
    by_cases hframe : s.table.field "frame" = key
    · subst hframe
      simp [values, List.filter_cons, hne.symm]
    · simp [values, List.filter_cons, hframe]

end Selection

end RemoteTable
