import RemoteTable.Proofs.Exchange.Checked
import RemoteTable.Proofs.Resolver.Failures
import RemoteTable.Proofs.Selection.Columns

/-!
# Indices stay inside their lists

The programs that look at a row or a list by an index are written here with indices that are checked.
Each checked program is the program itself (`indices_in_bounds`): every row of a result set has as many
cells as there are columns, whatever the reply was and however the rows were sorted, and there are as
many entries as assignments of entries.
-/

namespace RemoteTable

open Checked

/-! ## Result sets -/

namespace ResultSet

variable (r : ResultSet)

/-- Every row has a cell in every column. -/
theorem element_eq {row : List Datum} (hrow : row ∈ r.rows) {column : ℕ}
    (h : column < r.columns.length) : element row column = .ok (row[column]?.getD Datum.null) :=
  element_of_lt (by rwa [r.width row hrow]) Datum.null

/-- The cell in a row and a named column, with a checked column. -/
def checkedGet? (index : ℕ) (name : String) : Checked (Option Datum) :=
  match r.columnIndex? name, r.row? index with
  | some column, some row => some <$> element row column
  | _, _ => .ok none

/-- The cells of a named column, with a checked column. -/
def checkedColumn? (name : String) : Checked (Option (List Datum)) :=
  match r.columnIndex? name with
  | some column => some <$> r.rows.mapM fun row => element row column
  | none => .ok none

/-- The different plain texts of a named column, with a checked column. -/
def checkedDistinct? (name : String) : Checked (Option (List String)) :=
  match r.columnIndex? name with
  | some column => (fun texts => some (sortedTexts texts)) <$>
      r.rows.mapM fun row => Datum.plain <$> element row column
  | none => .ok none

/-- The rows in the order of their identifiers, with a checked column. -/
def checkedOrder (column : ℕ) (ids : List String) : Checked (List (List Datum)) := do
  let ranked ← r.rows.mapM fun row => do return (rank ids (← element row column).plain, row)
  return (ranked.mergeSort fun a b => a.1 ≤ b.1).map Prod.snd

/-- No look-up of a cell leaves the row. -/
theorem checkedGet?_eq (index : ℕ) (name : String) :
    r.checkedGet? index name = .ok (r.get? index name) := by
  unfold checkedGet? get?
  cases hcolumn : r.columnIndex? name with
  | none => rfl
  | some column =>
    cases hrow : r.row? index with
    | none => rfl
    | some row =>
      have hlt : column < row.length := by
        rw [r.width row (List.mem_of_getElem? hrow)]
        exact r.lt_of_columnIndex? hcolumn
      show some <$> element row column = .ok row[column]?
      rw [element, List.getElem?_eq_getElem hlt]
      rfl

theorem checkedColumn?_eq (name : String) : r.checkedColumn? name = .ok (r.column? name) := by
  unfold checkedColumn? column?
  cases hcolumn : r.columnIndex? name with
  | none => rfl
  | some column =>
    have hcells := mapM_eq_ok fun row hrow => r.element_eq hrow (r.lt_of_columnIndex? hcolumn)
    show some <$> r.rows.mapM _ = _
    rw [hcells]
    rfl

theorem checkedDistinct?_eq (name : String) : r.checkedDistinct? name = .ok (r.distinct? name) := by
  unfold checkedDistinct? distinct? column?
  cases hcolumn : r.columnIndex? name with
  | none => rfl
  | some column =>
    have htexts : r.rows.mapM (fun row => Datum.plain <$> element row column) =
        .ok (r.rows.map fun row => (row[column]?.getD Datum.null).plain) := by
      refine mapM_eq_ok fun row hrow => ?_
      rw [r.element_eq hrow (r.lt_of_columnIndex? hcolumn)]
      rfl
    show _ <$> r.rows.mapM _ = _
    rw [htexts]
    show Except.ok (some (sortedTexts _)) = .ok (some (sortedTexts ((r.cells column).map Datum.plain)))
    rw [cells, List.map_map]
    rfl

/-- Sorting by a column reads within the rows. -/
theorem checkedOrder_eq {column : ℕ} (h : column < r.columns.length) (ids : List String) :
    r.checkedOrder column ids = .ok (r.orderByIds column ids).rows := by
  have hranked : (r.rows.mapM fun row => do return (rank ids (← element row column).plain, row)) =
      Except.ok (r.rows.map fun row => (rowRank ids column row, row)) := by
    refine mapM_eq_ok fun row hrow => ?_
    rw [r.element_eq hrow h]
    rfl
  unfold checkedOrder
  rw [hranked]
  show Except.ok _ = Except.ok _
  -- the rows are sorted as they are sorted with their ranks beside them
  rw [List.map_mergeSort (s := fun a b => rowRank ids column a ≤ rowRank ids column b), List.map_map]
  · congr 2
    exact List.map_id r.rows
  · intro a ha b hb
    obtain ⟨row, -, rfl⟩ := List.mem_map.mp ha
    obtain ⟨row', -, rfl⟩ := List.mem_map.mp hb
    rfl

end ResultSet

/-! ## Reading fields -/

namespace Selection

variable {α : Type} (s : Selection) (names : List String)

theorem length_qualified : (names.map s.table.field).length = names.length :=
  List.length_map _

/-- The rows of a read of fields, with a checked column where they are sorted. -/
def checkedRows : CheckedCall (List (List Datum)) := do
  let qualified := names.map s.table.field
  let response ← ofCall (s.call (s.fieldsRequest names))
  let rows ← ofCall (Call.ofExcept response.rows)
  let result ← ofCall (Call.ofExcept (ResultSet.ofRows names qualified (s.length_qualified names) rows))
  match s.idColumn? qualified with
  | some column => toCall (result.checkedOrder column s.ids)
  | none => return result.rows

/-- The values of one field, each of them taken from the front of its row. -/
def checkedField (name : String) : CheckedCall (List Datum) := do
  toCall ((← s.checkedRows [name]).mapM fun row => element row 0)

theorem lt_of_idColumn? {qualified : List String} {column : ℕ}
    (h : s.idColumn? qualified = some column) : column < qualified.length :=
  (List.findIdx?_eq_some_iff_getElem.mp h).1

variable {names} in
theorem columns_of_ofRows {qualified : List String} {hnamed : qualified.length = names.length}
    {rows : List (List Datum)} {result : ResultSet}
    (h : ResultSet.ofRows names qualified hnamed rows = .ok result) : result.columns = names := by
  unfold ResultSet.ofRows at h
  split at h <;> cases h
  rfl

/-- The rows of a read of fields are the rows of its result set. -/
theorem checkedRows_eq : s.checkedRows names = ofCall (do return (← s.getFields names).rows) := by
  -- the check of the widths as a step of its own in front of the sorting
  have hresult : ∀ rows, (do return (← Call.ofExcept (s.resultOf names rows)).rows) =
      Call.ofExcept (ResultSet.ofRows names (names.map s.table.field) (s.length_qualified names) rows) >>=
        fun result => pure (match s.idColumn? (names.map s.table.field) with
          | some column => (result.orderByIds column s.ids).rows
          | none => result.rows) := by
    intro rows
    simp only [resultOf]
    cases ResultSet.ofRows names (names.map s.table.field) (s.length_qualified names) rows with
    | error e => rfl
    | ok result => cases hcolumn : s.idColumn? (names.map s.table.field) <;> rfl
  unfold checkedRows getFields
  simp only [bind_assoc, hresult]
  refine ofCall_bind fun _ response _ => ofCall_bind fun _ rows _ => ofCall_bind fun log result h => ?_
  have hcolumns := columns_of_ofRows (Call.runs_ofExcept_iff.mp h).2.symm
  cases hcolumn : s.idColumn? (names.map s.table.field) with
  | none => rfl
  | some column =>
    have hlt : column < result.columns.length := by
      rw [hcolumns, ← s.length_qualified names]
      exact s.lt_of_idColumn? hcolumn
    show toCall (result.checkedOrder column s.ids) = _
    rw [result.checkedOrder_eq hlt]
    rfl

variable {names} in
/-- The rows that a read of fields finds have one cell for each name. -/
theorem width_of_runs_getFields {log : Transcript} {result : ResultSet}
    (h : (s.getFields names).Runs log (.ok result)) :
    ∀ row ∈ result.rows, row.length = names.length := by
  rcases Call.runs_bind_iff.mp h with ⟨e, -, he⟩ | ⟨_, response, _, -, -, h⟩
  · cases he
  rcases Call.runs_bind_iff.mp h with ⟨e, -, he⟩ | ⟨_, rows, _, -, -, h⟩
  · cases he
  have hmade := (s.resultOf_eq_ok_iff names).mp (Call.runs_ofExcept_iff.mp h).2.symm
  rw [← hmade.2.columns]
  exact result.width

variable {names} in
/-- What is done with the rows of a read of fields may rely on their width. -/
theorem checkedRows_bind {f : List (List Datum) → CheckedCall α} {g : ResultSet → Call α}
    (h : ∀ result : ResultSet, (∀ row ∈ result.rows, row.length = names.length) →
      f result.rows = ofCall (g result)) :
    s.checkedRows names >>= f = ofCall (s.getFields names >>= g) := by
  have hrows : s.checkedRows names = ofCall (s.getFields names) >>= fun result => pure result.rows :=
    (s.checkedRows_eq names).trans (ofCall_bind fun _ _ _ => rfl).symm
  rw [hrows, bind_assoc]
  simp only [pure_bind]
  exact ofCall_bind fun _ result hruns => h result (s.width_of_runs_getFields hruns)

/-- The only cell of an entry's row is there. -/
theorem checkedField_eq (name : String) : s.checkedField name = ofCall (s.getField name) := by
  refine s.checkedRows_bind fun result hwidth => ?_
  have hcells : (result.rows.mapM fun row => element row 0) = .ok (result.cells 0) :=
    mapM_eq_ok fun row hrow => element_of_lt (by simp [hwidth row hrow]) Datum.null
  rw [hcells]
  rfl

/-! ## Narrowing -/

/-- What is made of the two cells of every row. -/
theorem mapM_two_cells {rows : List (List Datum)} (hwidth : ∀ row ∈ rows, row.length = 2)
    (make : Datum → Datum → α) :
    (rows.mapM fun row => do return make (← element row 0) (← element row 1)) =
      Except.ok (rows.map fun row => make (row[0]?.getD .null) (row[1]?.getD .null)) := by
  refine mapM_eq_ok fun row hrow => ?_
  have hlength := hwidth row hrow
  rw [element_of_lt (by omega) Datum.null, element_of_lt (by omega) Datum.null]
  rfl

/-- The assignment that pairs of an identifier and its assignment give for an identifier: that of the
last pair, nothing if there is none. -/
def assignmentIn (pairs : List (String × Datum)) (id : String) : Datum :=
  ((pairs.reverse.find? fun pair => pair.1 == id).map Prod.snd).getD .null

/-- The entry at the checked place of the best of the assignments to an account. -/
def checkedBest (assigned : List Datum) (account : String) : CheckedCall Entry :=
  match Assignment.bestMatch assigned account with
  | some index => toCall (element s.toEntries index)
  | none => ofCall (throw (.emptyMatch s.table.name))

/-- The entry that is assigned best to an account, with checked cells. -/
def checkedGuess (account : String) : CheckedCall Entry := do
  let pairs ← toCall ((← s.checkedRows ["id", "account_id"]).mapM fun row => do
    return ((← element row 0).plain, ← element row 1))
  s.checkedBest (s.ids.map (assignmentIn pairs)) account

/-- One entry of the selection, the only one at a checked place. -/
def checkedToEntry (account : String) : CheckedCall Entry :=
  match s.ids.length with
  | 0 => ofCall (throw (.emptyMatch s.table.name))
  | 1 => do return ⟨s.table, ← toCall (element s.ids 0)⟩
  | _ => s.checkedGuess account

/-- The identifier and the assignment in a row. -/
def assignmentOfRow (row : List Datum) : String × Datum :=
  ((row[0]?.getD Datum.null).plain, row[1]?.getD Datum.null)

/-- The cell that decides about an identifier is found in the rows as in the checked reading. -/
theorem assignmentIn_map (rows : List (List Datum)) (id : String) :
    assignmentIn (rows.map assignmentOfRow) id = assignmentOf rows id := by
  rw [assignmentIn, ← List.map_reverse, List.find?_map, assignmentOf_eq]
  have hfound : (fun row => (assignmentOfRow row).1 == id) =
      fun row => decide (ResultSet.rowId 0 row = id) := rfl
  show ((rows.reverse.find? fun row => (assignmentOfRow row).1 == id).map _ |>.map Prod.snd).getD _ = _
  rw [hfound]
  cases rows.reverse.find? fun row => decide (ResultSet.rowId 0 row = id) <;> rfl

/-- There are as many entries as assignments, so there is an entry at the best place. -/
theorem checkedBest_eq {assigned : List Datum} (hlength : assigned.length = s.ids.length)
    (account : String) :
    s.checkedBest assigned account =
      ofCall (match (Assignment.bestMatch assigned account).bind fun index => s.toEntries[index]? with
        | some entry => pure entry
        | none => throw (.emptyMatch s.table.name)) := by
  unfold checkedBest
  cases hbest : Assignment.bestMatch assigned account with
  | none => rfl
  | some index =>
    have hlt : index < s.toEntries.length := by
      rw [toEntries, List.length_map, ← hlength]
      exact Assignment.lt_of_bestMatch account hbest
    show toCall (element s.toEntries index) = ofCall (match s.toEntries[index]? with
      | some entry => pure entry
      | none => throw (.emptyMatch s.table.name))
    rw [element, List.getElem?_eq_getElem hlt]
    rfl

/-- The best identifier is looked for within the rows. -/
theorem checkedGuess_eq (account : String) : s.checkedGuess account = ofCall (s.guess account) := by
  refine s.checkedRows_bind fun result hwidth => ?_
  have hpairs : (result.rows.mapM fun row => do return ((← element row 0).plain, ← element row 1)) =
      Except.ok (result.rows.map assignmentOfRow) :=
    mapM_two_cells hwidth fun id assigned => (id.plain, assigned)
  have hassigned : s.ids.map (assignmentIn (result.rows.map assignmentOfRow)) =
      s.ids.map (assignmentOf result.rows) :=
    List.map_congr_left fun id _ => assignmentIn_map result.rows id
  rw [hpairs]
  show s.checkedBest (s.ids.map (assignmentIn (result.rows.map assignmentOfRow))) account = _
  rw [hassigned]
  exact s.checkedBest_eq (List.length_map _) account

/-- Narrowing reads within the rows and the identifiers. -/
theorem checkedToEntry_eq (account : String) :
    s.checkedToEntry account = ofCall (s.toEntry account) := by
  obtain ⟨t, _ | ⟨id, _ | ⟨id', ids⟩⟩⟩ := s
  · rfl
  · rfl
  · exact checkedGuess_eq _ account

end Selection

/-! ## Entries -/

namespace Entry

variable (e : Entry)

/-- The identifier, as the first of the selection. -/
def checkedId : Checked String :=
  element e.selection.ids 0

/-- Fields of the record, whose identifier is named if there is no row. -/
def checkedFields (names : List String) : CheckedCall (List Datum) := do
  match (← e.selection.checkedRows names).head? with
  | some row => return row
  | none => ofCall (throw (.unexpectedResponse (.noRow e.table.name (← toCall e.checkedId))))

/-- One field of the record, taken from the front of its row. -/
def checkedField (name : String) : CheckedCall Datum := do
  toCall (element (← e.checkedFields [name]) 0)

theorem checkedId_eq : e.checkedId = .ok e.id := rfl

/-- The row of an entry is one of the reply. -/
theorem checkedFields_eq (names : List String) :
    e.checkedFields names = ofCall (e.getFields names) := by
  refine e.selection.checkedRows_bind fun result _ => ?_
  cases result.rows.head? <;> rfl

theorem checkedField_eq (name : String) : e.checkedField name = ofCall (e.getField name) := by
  have hassoc : e.getField name = e.selection.getFields [name] >>= fun result =>
      (match result.rows.head? with
        | some row => pure row
        | none => throw (.unexpectedResponse (.noRow e.table.name e.id))) >>= fun row =>
          pure (row.head?.getD .null) :=
    bind_assoc _ _ _
  unfold checkedField checkedFields
  rw [bind_assoc, hassoc]
  refine e.selection.checkedRows_bind fun result hwidth => ?_
  cases hhead : result.rows.head? with
  | none => rfl
  | some row =>
    have hlength : row.length = 1 := hwidth row (List.mem_of_head? hhead)
    show toCall (element row 0) = ofCall (pure (row.head?.getD .null))
    rw [element_of_lt (by omega) Datum.null, List.head?_eq_getElem?]
    rfl

end Entry

/-! ## Projects -/

namespace Resolver

variable (r : Resolver)

/-- The active projects, with checked cells. -/
def checkedLoad : CheckedCall (List Project) := do
  let selection ← ofCall (PublicTable.projects r.client).all
  toCall ((← selection.checkedRows ["code", "database"]).mapM fun row => do
    return ⟨(← element row 0).plain, (← element row 1).plain⟩)

/-- The cells of a project's code and database are within its row. -/
theorem checkedLoad_eq : r.checkedLoad = ofCall r.loadProjects := by
  refine ofCall_bind fun _ selection _ => selection.checkedRows_bind fun result hwidth => ?_
  have hprojects : (result.rows.mapM fun row => do
      return (⟨(← element row 0).plain, (← element row 1).plain⟩ : Project)) =
      Except.ok (result.rows.map projectOfRow) :=
    Selection.mapM_two_cells hwidth fun code database => Project.mk code.plain database.plain
  rw [hprojects]
  rfl

end Resolver

/-! ## Records -/

namespace Record

variable {α : Type} [Record α]

/-- Reads a record from the checked cells of a row of its width. -/
def checkedOfRow (row : List Datum) : Checked (Except Error α) :=
  if row.length = (fields α).length then
    ofRow <$> (List.range (fields α).length).mapM (element row)
  else
    return .error (.unexpectedResponse (.recordWidth (label α) row.length (fields α).length))

/-- A row of another length than the record is refused before a cell is read. -/
theorem ofRow_of_length_ne [Lawful α] {row : List Datum} (h : row.length ≠ (fields α).length) :
    (ofRow row : Except Error α) =
      .error (.unexpectedResponse (.recordWidth (label α) row.length (fields α).length)) := by
  unfold ofRow
  split
  · next record hrecord =>
    refine absurd ?_ h
    rw [← Lawful.length_toTexts record, ← Lawful.ofTexts?_eq_some_iff.mp hrecord, List.length_map]
  · rfl

theorem checkedOfRow_eq [Lawful α] (row : List Datum) :
    checkedOfRow row = .ok (ofRow row : Except Error α) := by
  unfold checkedOfRow
  split
  · next hlength =>
    have hcells : (List.range (fields α).length).mapM (element row) =
        .ok ((List.range (fields α).length).map fun index => row[index]?.getD Datum.null) := by
      refine mapM_eq_ok fun index hindex => element_of_lt ?_ Datum.null
      rw [hlength]
      exact List.mem_range.mp hindex
    have hrow : ((List.range (fields α).length).map fun index => row[index]?.getD Datum.null) = row := by
      refine List.ext_getElem (by simp [hlength]) fun index _ hindex => ?_
      simp [hindex]
    rw [hcells, hrow]
    rfl
  · next hlength => rw [ofRow_of_length_ne hlength]; rfl

end Record

/-- No reply can lead out of a list. The rows of a read of fields have one cell for each name, so that

* a result set, the values of a field, an entry with its identifier and its fields, the narrowing of a
  selection, the projects and the records of a row are what the programs with checked indices find;
* whatever is replied, the operations on tables, selections and entries, the searches in public tables
  and the questions to a resolver end in a value or in one of the expected failures. -/
theorem indices_in_bounds :
    (∀ r : ResultSet, (∀ index name, r.checkedGet? index name = .ok (r.get? index name)) ∧
      ∀ name, r.checkedColumn? name = .ok (r.column? name) ∧
        r.checkedDistinct? name = .ok (r.distinct? name)) ∧
    (∀ (s : Selection) names,
      s.checkedRows names = ofCall (do return (← s.getFields names).rows)) ∧
    (∀ (s : Selection) name, s.checkedField name = ofCall (s.getField name)) ∧
    (∀ (s : Selection) account, s.checkedToEntry account = ofCall (s.toEntry account)) ∧
    (∀ e : Entry, e.checkedId = .ok e.id ∧
      (∀ names, e.checkedFields names = ofCall (e.getFields names)) ∧
      ∀ name, e.checkedField name = ofCall (e.getField name)) ∧
    (∀ r : Resolver, r.checkedLoad = ofCall r.loadProjects) ∧
    (∀ row, Record.checkedOfRow row = .ok (Record.ofRow row : Except Error Pipeline) ∧
      Record.checkedOfRow row = .ok (Record.ofRow row : Except Error HistoryRecord)) ∧
    (∀ {α : Type} (x : Exchange α) (replies : ℕ → Reply), ∃ log result, x.Runs log result ∧
      ∀ i sent, log[i]? = some sent → sent.2 = replies i) ∧
    (∀ {α : Type} (op : Operation α) log e, op.perform.Runs log (.error e) → e.IsExpected) ∧
    (∀ (p : PublicTable) log e, p.all.Runs log (.error e) ∨ p.names.Runs log (.error e) →
      e.IsExpected) ∧
    ∀ (r : Resolver) (question : Resolver.Question) caches log e caches', caches.Idle →
      (r.ask question).Runs caches log (.error e) caches' → e.IsExpected := by
  refine ⟨fun r => ⟨r.checkedGet?_eq, fun name => ⟨r.checkedColumn?_eq name, r.checkedDistinct?_eq name⟩⟩,
    fun s => s.checkedRows_eq, fun s => s.checkedField_eq, fun s => s.checkedToEntry_eq,
    fun e => ⟨e.checkedId_eq, e.checkedFields_eq, e.checkedField_eq⟩, fun r => r.checkedLoad_eq,
    fun row => ⟨Record.checkedOfRow_eq row, Record.checkedOfRow_eq row⟩,
    fun x replies => x.exists_runs replies, ?_, ?_, ?_⟩
  · exact fun op log e h => (op.followedBy_course log _ h).isExpected op.failsOnly_expected
  · rintro p log e (h | h)
    · exact (p.followedBy_allCourse log _ h).isExpected p.failsOnly_allCourse
    · exact (p.followedBy_namesCourse log _ h).isExpected p.failsOnly_namesCourse
  · intro r question caches log e caches' hidle h
    exact (Resolver.ends_courseFrom hidle h).isExpected (r.failsOnly_courseFrom caches question)

/-- A row that is too wide for one field, a search without a reply, and a file of none of the projects,
of which there are none. -/
theorem wide_row_indices_in_bounds :
    let r := Resolver.ofClient ⟨none, none⟩
    let read : Operation (List Datum) := .getField ⟨⟨"task", ⟨"db", r.client⟩, none⟩, ["7"]⟩ "artist"
    let tooWide : Error := .unexpectedResponse (.rowWidth 2 ["artist"])
    let unreached : Error := .transport .badBody
    let elsewhere : Error := .cannotDetermineTarget "a.nk"
    (∃ log, read.perform.Runs log (.error tooWide) ∧ tooWide.IsExpected) ∧
    (∃ log, (PublicTable.projects r.client).all.Runs log (.error unreached) ∧ unreached.IsExpected) ∧
    ∃ log caches', (r.ask (.database "a.nk")).Runs (.empty .never) log (.error elsewhere) caches' ∧
      elsewhere.IsExpected := by
  intro r read tooWide unreached elsewhere
  obtain ⟨-, -, -, -, -, -, -, -, hop, hpublic, hask⟩ := indices_in_bounds
  have hread : ∃ log, read.perform.Runs log (.error tooWide) := by
    rw [Operation.perform_eq]
    exact ⟨_, Call.runs_single_iff.mpr
      ⟨.ok (.ok (.array [.array [.string "7", .string "monkey"]])), rfl, rfl⟩⟩
  have hsearch : ∃ log, (PublicTable.projects r.client).all.Runs log (.error unreached) := by
    rw [PublicTable.all, Table.filter_eq_single]
    exact ⟨_, Call.runs_single_iff.mpr ⟨.error .badBody, rfl, rfl⟩⟩
  have hload : ∃ log, r.loadProjects.Runs log (.ok []) := by
    let found := (PublicTable.projects r.client).table.select []
    have hwidth : ∀ row ∈ ([] : List (List Datum)), row.length = ["code", "database"].length := by simp
    obtain ⟨result, hmade, hresult⟩ := found.exists_resultOf ["code", "database"] hwidth
    have hrows : result.rows = [] :=
      List.perm_nil.mp (hresult.rows ▸ found.arranged_perm ["code", "database"] [])
    have hfound : ∃ log, (PublicTable.projects r.client).all.Runs log (.ok found) := by
      rw [PublicTable.all, Table.filter_eq_single]
      exact ⟨_, Call.runs_single_iff.mpr ⟨.ok (.ok .null), rfl, rfl⟩⟩
    have hgot : ∃ log, (found.getFields ["code", "database"]).Runs log (.ok result) := by
      rw [Operation.selection_getFields_eq]
      exact ⟨_, Call.runs_single_iff.mpr ⟨.ok (.ok .null), rfl, hmade.symm⟩⟩
    obtain ⟨before, hfound⟩ := hfound
    obtain ⟨after, hgot⟩ := hgot
    refine ⟨before ++ after, Call.runs_bind_iff.mpr (.inr ⟨before, found, after, rfl, hfound, ?_⟩)⟩
    refine Call.runs_bind_pure_iff.mpr ⟨.ok result, hgot, ?_⟩
    rw [map_eq_ok_iff.mpr ⟨result, rfl, rfl⟩, hrows]
    rfl
  obtain ⟨log, hload⟩ := hload
  have hlocated : (r.projectsFrom none >>= r.answerWith (.database "a.nk")).Runs (log ++ [])
      (.error elsewhere) :=
    Call.runs_bind_iff.mpr (.inr ⟨log, [], [], rfl, hload,
      Call.runs_bind_iff.mpr (.inl ⟨elsewhere, Call.runs_ofExcept_iff.mpr ⟨rfl, rfl⟩, rfl⟩)⟩)
  have hidle := ResolverCaches.idle_empty .never
  obtain ⟨caches', hasked⟩ := Resolver.exists_runs_ask hidle rfl hlocated
  obtain ⟨_, hread⟩ := hread
  obtain ⟨_, hsearch⟩ := hsearch
  exact ⟨⟨_, hread, hop _ _ _ hread⟩, ⟨_, hsearch, hpublic _ _ _ (.inl hsearch)⟩,
    _, caches', hasked, hask _ _ _ _ _ _ hidle hasked⟩

end RemoteTable
