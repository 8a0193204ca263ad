import RemoteTable.Proofs.Exchange.Course
import RemoteTable.Proofs.Operation

/-!
# Courses of operations

Which reply carries which result of an operation, said by the shape of the data
(`Operation.Carries`), and with it the course that every operation follows: the outcome of its plan,
or the one request of its plan whose reply carries the result (`Operation.followedBy_course`).
-/

namespace RemoteTable

/-! ## Result sets -/

namespace Selection

variable (s : Selection) (names : List String) {rows : List (List Datum)}

/-- The rows that answer a read of fields, sorted by the ranks of their identifiers if these are among
the fields. -/
def arranged (rows : List (List Datum)) : List (List Datum) :=
  match s.idColumn? (names.map s.table.field) with
  | some column => rows.mergeSort (ResultSet.precedes s.ids column)
  | none => rows

/-- Whether a result set has the columns and the rows of a read of fields. -/
structure IsResult (rows : List (List Datum)) (result : ResultSet) : Prop where
  /-- The columns are the fields that were asked for. -/
  columns : result.columns = names
  /-- Their wire names are those of the table. -/
  qualified : result.qualified = names.map s.table.field
  /-- The rows are the given ones in their order. -/
  rows : result.rows = s.arranged names rows

/-- Arranging only moves rows. -/
theorem arranged_perm (rows : List (List Datum)) : (s.arranged names rows).Perm rows := by
  unfold arranged
  split
  · exact List.mergeSort_perm ..
  · exact .refl rows

variable {s names} in
/-- Rows have one result set. -/
theorem IsResult.unique {result result' : ResultSet} (h : s.IsResult names rows result)
    (h' : s.IsResult names rows result') : result = result' :=
  ResultSet.eq_of_rows (h.columns.trans h'.columns.symm) (h.qualified.trans h'.qualified.symm)
    (h.rows.trans h'.rows.symm)

/-- Rows with one cell for every field are made a result set. -/
theorem exists_resultOf (hwidth : ∀ row ∈ rows, row.length = names.length) :
    ∃ result, s.resultOf names rows = .ok result ∧ s.IsResult names rows result := by
  cases hcolumn : s.idColumn? (names.map s.table.field) with
  | some column =>
    exact ⟨_, s.resultOf_eq hcolumn hwidth, rfl, rfl, by rw [arranged, hcolumn]; rfl⟩
  | none =>
    refine ⟨⟨names, names.map s.table.field, rows, by simp, hwidth⟩, ?_, rfl, rfl,
      by rw [arranged, hcolumn]⟩
    simp only [resultOf, ResultSet.ofRows, dif_pos hwidth, bind, Except.bind, hcolumn]
    rfl

/-- A result set is made of rows that are all as wide as the names. -/
theorem resultOf_eq_ok_iff {result : ResultSet} :
    s.resultOf names rows = .ok result ↔
      (∀ row ∈ rows, row.length = names.length) ∧ s.IsResult names rows result := by
  by_cases hwidth : ∀ row ∈ rows, row.length = names.length
  · obtain ⟨made, hmade, hresult⟩ := s.exists_resultOf names hwidth
    rw [hmade, Except.ok.injEq]
    constructor
    · rintro rfl
      exact ⟨hwidth, hresult⟩
    · exact fun h => hresult.unique h.2
  · constructor
    · intro h
      simp only [resultOf, ResultSet.ofRows, dif_neg hwidth, bind, Except.bind] at h
      cases h
    · exact fun h => absurd h.1 hwidth

theorem failsUnexpected_resultOf (rows : List (List Datum)) :
    FailsUnexpected (s.resultOf names rows) := by
  by_cases hwidth : ∀ row ∈ rows, row.length = names.length
  · obtain ⟨made, hmade, -⟩ := s.exists_resultOf names hwidth
    rw [hmade]
    exact .ok made
  · simp only [resultOf, ResultSet.ofRows, dif_neg hwidth, bind, Except.bind]
    exact .unexpected _

end Selection

/-- The cells of the only column are the rows without their brackets. -/
theorem ResultSet.cells_zero_eq_iff {r : ResultSet} (h : r.columns.length = 1) {cells : List Datum} :
    r.cells 0 = cells ↔ r.rows = cells.map fun d => [d] := by
  have hrow : ∀ row ∈ r.rows, [row[0]?.getD .null] = row := by
    intro row hrow
    have hlength := r.width row hrow
    rw [h] at hlength
    obtain ⟨d, rfl⟩ := List.length_eq_one_iff.mp hlength
    rfl
  have hrows : r.rows = (r.cells 0).map fun d => [d] := by
    rw [ResultSet.cells, List.map_map]
    exact ((List.map_congr_left hrow).trans (List.map_id r.rows)).symm
  constructor
  · rintro rfl
    exact hrows
  · intro h
    rw [hrows] at h
    exact List.map_injective_iff.mpr (fun a b hab => (List.cons.inj hab).1) h

namespace Operation

open Response (Reads)

variable {α : Type}

/-! ## Replies and results -/

/-- Which reply carries which result. -/
def Carries : {α : Type} → Operation α → Response → α → Prop
  | _, call _ _, r, result => result = r
  | _, filter t _, r, selection => ∃ ids, r.CarriesIdentifiers ids ∧ t.select ids = selection
  | _, pipelines _, r, records => Record.Carries r records
  | _, tableRecords _ _, r, records => Record.Carries r records
  | _, tableCount _ _, r, n => r.CarriesCount n
  | _, hasPermission _ _, r, flag => flag = r.flag
  | _, joinedTables _, r, data => data = r.data
  | _, setting _ _, r, data => data = r.data
  | _, setPageData _ _, _, _ => True
  | _, getFields s names, r, result =>
    ∃ rows, r.CarriesRows names.length rows ∧ s.IsResult names rows result
  | _, getField s name, r, cells =>
    ∃ rows, r.CarriesRows 1 rows ∧ s.arranged [name] rows = cells.map fun d => [d]
  | _, setFields _ _, _, _ => True
  | _, setField _ _ _, _, _ => True
  | _, delete _, _, _ => True
  | _, toEntry s account, r, entry =>
    ∃ rows, r.CarriesRows 2 rows ∧ entry.table = s.table ∧
      ∃ standing, s.IsBest account rows entry.id standing
  | _, getPath _ _, r, members => r.CarriesMembers members
  | _, getFilebox _ _, r, box => Filebox.Carries r box
  | _, historyRecords _ _, r, records => Record.Carries r records
  | _, historyCount _ _, r, n => r.CarriesCount n
  | _, getEntryFields e names, r, row =>
    ∃ rows, r.CarriesRows names.length rows ∧ (e.selection.arranged names rows).head? = some row
  | _, getEntryField e name, r, d =>
    ∃ rows, r.CarriesRows 1 rows ∧ (e.selection.arranged [name] rows).head? = some [d]
  | _, setEntryFields _ _, _, _ => True
  | _, setEntryField _ _ _, _, _ => True
  | _, deleteEntry _, _, _ => True

/-- A read of fields understands exactly the replies that carry rows. -/
theorem reads_readFields (s : Selection) (names : List String) :
    Reads (readFields s names) fun r result =>
      ∃ rows, r.CarriesRows names.length rows ∧ s.IsResult names rows result :=
  .of_rows (fun _ _ => s.resultOf_eq_ok_iff names) (s.failsUnexpected_resultOf names)

/-- What is made of a result set can be said about the rows of the reply. -/
theorem reads_readFields_bind (s : Selection) (names : List String) {f : ResultSet → Except Error α}
    {made : List (List Datum) → α → Prop} (hf : ∀ result, FailsUnexpected (f result))
    (hmade : ∀ {rows result}, (∀ row ∈ rows, row.length = names.length) →
      s.IsResult names rows result → ∀ a, f result = .ok a ↔ made rows a) :
    Reads (fun r => readFields s names r >>= f) fun r a =>
      ∃ rows, r.CarriesRows names.length rows ∧ made rows a := by
  refine ((reads_readFields s names).bind hf).congr fun r a => ?_
  constructor
  · rintro ⟨result, ⟨rows, hrows, hresult⟩, h⟩
    exact ⟨rows, hrows, (hmade hrows.width hresult a).mp h⟩
  · rintro ⟨rows, hrows, h⟩
    obtain ⟨result, -, hresult⟩ := s.exists_resultOf names hrows.width
    exact ⟨result, ⟨rows, hrows, hresult⟩, (hmade hrows.width hresult a).mpr h⟩

theorem reads_getField (s : Selection) (name : String) :
    Reads (getField s name).read (getField s name).Carries := by
  refine reads_readFields_bind s [name] (fun result => .ok (result.cells 0)) ?_
  intro rows result hwidth hresult cells
  have hcolumns : result.columns.length = 1 := by rw [hresult.columns]; rfl
  rw [Except.ok.injEq, ResultSet.cells_zero_eq_iff hcolumns, hresult.rows]

/-- The row of an entry is the first one of the arranged rows. -/
theorem firstRow_eq_ok_iff {e : Entry} {names : List String} {rows : List (List Datum)}
    {result : ResultSet} (h : e.selection.IsResult names rows result) {row : List Datum} :
    firstRow e result = .ok row ↔ (e.selection.arranged names rows).head? = some row := by
  rw [firstRow, h.rows]
  cases (e.selection.arranged names rows).head? <;> simp

theorem failsUnexpected_firstRow (e : Entry) (result : ResultSet) :
    FailsUnexpected (firstRow e result) := by
  unfold firstRow
  split
  · exact .ok _
  · exact .unexpected _

theorem reads_readEntryFields (e : Entry) (names : List String) :
    Reads (readEntryFields e names) fun r row =>
      ∃ rows, r.CarriesRows names.length rows ∧ (e.selection.arranged names rows).head? = some row :=
  reads_readFields_bind e.selection names (failsUnexpected_firstRow e) fun _ hresult _ =>
    firstRow_eq_ok_iff hresult

theorem reads_getEntryField (e : Entry) (name : String) :
    Reads (getEntryField e name).read (getEntryField e name).Carries := by
  have hread : (getEntryField e name).read = fun r => readFields e.selection [name] r >>= fun result =>
      firstRow e result >>= fun row => .ok (row.head?.getD .null) := by
    funext r
    exact bind_assoc _ _ _
  rw [hread]
  refine reads_readFields_bind e.selection [name]
    (fun result => (failsUnexpected_firstRow e result).bind fun _ => .ok _) ?_
  intro rows result hwidth hresult d
  rw [bind_eq_ok_iff]
  constructor
  · rintro ⟨row, hrow, hd⟩
    have hhead := (firstRow_eq_ok_iff hresult).mp hrow
    -- the row has one cell, as all rows of the reply have
    have hlength : row.length = 1 :=
      hwidth row ((e.selection.arranged_perm [name] rows).mem_iff.mp (List.mem_of_head? hhead))
    obtain ⟨cell, rfl⟩ := List.length_eq_one_iff.mp hlength
    rw [← Except.ok.inj hd]
    exact hhead
  · exact fun h => ⟨[d], (firstRow_eq_ok_iff hresult).mpr h, rfl⟩

/-- Of several records one is always chosen. -/
theorem exists_choice_eq {s : Selection} (hids : s.ids ≠ []) (account : String) (result : ResultSet) :
    ∃ chosen, s.choice account result = .ok ⟨s.table, chosen⟩ := by
  cases hhead : (sortByKey (fun id => Assignment.cellPriority account
      (Selection.assignmentOf result.rows id)) s.ids).head? with
  | none => exact absurd ((head?_sortByKey_eq_none_iff _).mp hhead) hids
  | some chosen => exact ⟨chosen, s.choice_eq account result hhead⟩

/-- Narrowing understands exactly the replies from which an entry is chosen. -/
theorem reads_toEntry {s : Selection} (hids : s.ids ≠ []) (account : String) :
    Reads (toEntry s account).read (toEntry s account).Carries := by
  refine reads_readFields_bind s Selection.narrowingFields (fun result => ?_) ?_
  · obtain ⟨chosen, hchosen⟩ := exists_choice_eq hids account result
    rw [hchosen]
    exact .ok _
  intro rows result hwidth hresult entry
  -- the choice is that of a reply with these rows
  let response : Response := .ok (.array (rows.map fun row => .array (Datum.toItems row)))
  have hrows : response.CarriesRows 2 rows := ⟨rfl, .inl rfl, hwidth⟩
  have hnarrowed : s.narrowed account (.ok response) = s.choice account result := by
    rw [Selection.narrowed, Selection.received, Table.accepted_ok _ hrows.success]
    show (response.rows >>= s.resultOf Selection.narrowingFields) >>= s.choice account = _
    rw [hrows.rows_eq]
    show s.resultOf Selection.narrowingFields rows >>= s.choice account = _
    rw [(s.resultOf_eq_ok_iff _).mpr ⟨hwidth, hresult⟩]
    rfl
  obtain ⟨chosen, standing, hchosen, hbest⟩ := s.exists_isBest account hids hrows
  rw [← hnarrowed, hchosen, Except.ok.injEq]
  constructor
  · rintro rfl
    exact ⟨rfl, standing, hbest⟩
  · rintro ⟨htable, standing', hbest'⟩
    -- the rows give every record one standing, and the standings decide which identifier is first
    have hstanding : standing' = standing :=
      funext fun id => (hbest.stands id _).mp ((hbest'.stands id _).mpr rfl)
    have hsorted := hbest'.sorted
    rw [hstanding, hbest.sorted] at hsorted
    obtain ⟨table, id⟩ := entry
    rw [Option.some.inj hsorted, ← htable]

/-- The result of an operation is read from the replies that carry it, and from no others. -/
theorem reads_read (op : Operation α) {own : Request} (h : op.plan = .inr own) :
    Reads op.read op.Carries := by
  cases op with
  | call t request => exact .of_total id
  | filter t filters => exact Response.reads_ids.map t.select
  | pipelines t => exact Record.reads_ofResponse
  | tableRecords t filters => exact Record.reads_ofResponse
  | tableCount t filters => exact Response.reads_count
  | hasPermission t name => exact .of_total Response.flag
  | joinedTables t => exact .of_total Response.data
  | setting t field => exact .of_total Response.data
  | getFields s names => exact reads_readFields s names
  | getField s name => exact reads_getField s name
  | toEntry s account =>
    refine reads_toEntry (fun hids => ?_) account
    rw [plan, hids] at h
    cases h
  | getPath s signs => exact Response.reads_object
  | getFilebox s sign => exact Filebox.reads_ofMembers
  | historyRecords s extra => exact Record.reads_ofResponse
  | historyCount s extra => exact Response.reads_count
  | getEntryFields e names => exact reads_readEntryFields e names
  | getEntryField e name => exact reads_getEntryField e name
  | setPageData | setFields | setField | delete | setEntryFields | setEntryField | deleteEntry =>
    exact (Reads.of_total fun _ => ()).congr fun _ _ => by simp [Carries]

/-! ## Courses -/

/-- The course of an operation: the outcome of its plan, or the request of its plan, whose reply
carries the result. -/
def course (op : Operation α) : Course α :=
  match op.plan with
  | .inl outcome => .done outcome
  | .inr own => .single (op.sent own) op.Carries

/-- Every operation follows its course. -/
theorem followedBy_course (op : Operation α) : op.course.FollowedBy op.perform := by
  rw [perform_eq, course]
  cases hplan : op.plan with
  | inl outcome => exact .ofExcept outcome
  | inr own =>
    exact .single (op.reads_read hplan) (op.inContext_sent own).controller (op.inContext_sent own).method

/-- With accepted replies only, an operation fails for want of a record only. -/
theorem failsOnly_course (op : Operation α) :
    op.course.FailsOnly fun e => e = .emptyMatch op.table.name := by
  unfold course
  cases hplan : op.plan with
  | inr own =>
    intro a e h
    cases h
  | inl outcome =>
    intro e he
    subst he
    cases op with
    | toEntry s account =>
      obtain ⟨t, _ | ⟨id, _ | ⟨id', ids⟩⟩⟩ := s <;> cases hplan
      rfl
    | getFilebox s sign =>
      obtain ⟨t, _ | ⟨id, ids⟩⟩ := s <;> cases hplan
      rfl
    | _ => cases hplan

/-- Operations fail in the expected ways only. -/
theorem failsOnly_expected (op : Operation α) : op.course.FailsOnly Error.IsExpected := by
  refine op.failsOnly_course.mono ?_
  rintro e rfl
  exact .emptyMatch _

end Operation

end RemoteTable
