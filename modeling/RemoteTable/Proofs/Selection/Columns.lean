import RemoteTable.Proofs.Operation.Course
import RemoteTable.Proofs.Table.Qualification

/-!
# Columns and their names

A column of a read goes by the name that was asked for and by its wire name. Different names may have
one wire name, and a name that was asked for may be the wire name of another column, but a name that
resolves always stands for a column with its own wire name
(`ResultSet.getElem?_qualified_of_columnIndex?`). All lookups by that name find the same cells
(`ResultSet.IsColumn`), and all lookups by any other name find nothing (`ResultSet.HasNoColumn`).
-/

namespace RemoteTable

namespace ResultSet

/-! ## Places of names -/

section

variable {names : List String} {name : String} {column : ℕ}

/-- A name without a place is not among the names. -/
theorem position?_eq_none_iff : position? names name = none ↔ name ∉ names := by
  rw [position?, List.findIdx?_eq_none_iff]
  constructor
  · exact fun h hmem => by simpa using h name hmem
  · rintro h other hother
    exact beq_false_of_ne fun heq => h (heq ▸ hother)

/-- The name stands at its place. -/
theorem getElem?_of_position? (h : position? names name = some column) :
    names[column]? = some name := by
  obtain ⟨hlt, hname, -⟩ := List.findIdx?_eq_some_iff_getElem.mp h
  rw [List.getElem?_eq_getElem hlt, beq_iff_eq.mp hname]

theorem lt_of_position? (h : position? names name = some column) : column < names.length :=
  (List.getElem?_eq_some_iff.mp (getElem?_of_position? h)).1

end

variable (r : ResultSet) {name : String} {column : ℕ}

/-- A named column is one of the columns. -/
theorem lt_of_columnIndex? (h : r.columnIndex? name = some column) : column < r.columns.length := by
  rcases Option.or_eq_some_iff.mp h with h | ⟨-, h⟩
  · exact lt_of_position? h
  · exact r.named ▸ lt_of_position? h

/-- A name that is found in neither spelling is neither a column's name nor its wire name. -/
theorem columnIndex?_eq_none_iff :
    r.columnIndex? name = none ↔ name ∉ r.columns ∧ name ∉ r.qualified := by
  rw [columnIndex?, Option.or_eq_none_iff, position?_eq_none_iff, position?_eq_none_iff]

/-- Names of both kinds resolve. -/
theorem exists_columnIndex? (h : name ∈ r.columns ∨ name ∈ r.qualified) :
    ∃ column, r.columnIndex? name = some column := by
  rw [← Option.ne_none_iff_exists', Ne, columnIndex?_eq_none_iff]
  rintro ⟨hcolumns, hqualified⟩
  exact h.elim hcolumns hqualified

/-- A name stands for a column with its wire name, also where it is the wire name of another column
or one of several names with this wire name. -/
theorem getElem?_qualified_of_columnIndex? {t : Table} (hqualified : r.qualified = r.columns.map t.field)
    (h : r.columnIndex? name = some column) : r.qualified[column]? = some (t.field name) := by
  rcases Option.or_eq_some_iff.mp h with hasked | ⟨-, hwire⟩
  · rw [hqualified, List.getElem?_map, getElem?_of_position? hasked, Option.map_some]
  · have hname := getElem?_of_position? hwire
    -- the name is one of the wire names, so that it is its own one
    have hmem := List.mem_of_getElem? hname
    rw [hqualified] at hmem
    obtain ⟨asked, -, rfl⟩ := List.mem_map.mp hmem
    rw [hname]
    exact congrArg some (qualify_qualify t.name t.name asked).symm

/-! ## Lookups -/

/-- What all lookups by a name find that stands for a column with certain cells. -/
structure IsColumn (name : String) (column : ℕ) (cells : List Datum) : Prop where
  /-- The name resolves to the column. -/
  index : r.columnIndex? name = some column
  /-- The cells are those of the column. -/
  values : r.column? name = some cells
  /-- There is one cell for every row. -/
  size : cells.length = r.size
  /-- In every row the cell is that of the row in this column. -/
  cell : ∀ index < r.size, ∃ row cell, r.row? index = some row ∧ row[column]? = some cell ∧
    cells[index]? = some cell ∧ r.get? index name = some cell
  /-- There is no cell behind the last row. -/
  beyond : ∀ index ≥ r.size, r.get? index name = none
  /-- The different texts are those of the cells. -/
  texts : r.distinct? name = some (sortedTexts (cells.map Datum.plain))

/-- Whether lookups by a name find nothing. -/
structure HasNoColumn (name : String) : Prop where
  /-- The name does not resolve. -/
  index : r.columnIndex? name = none
  /-- There are no cells. -/
  values : r.column? name = none
  /-- There is no cell in any row. -/
  cell : ∀ index, r.get? index name = none
  /-- There are no texts. -/
  texts : r.distinct? name = none

/-- A look-up takes the row and then the cell of the column. -/
theorem get?_eq_bind (h : r.columnIndex? name = some column) (index : ℕ) :
    r.get? index name = (r.row? index).bind fun row => row[column]? := by
  rw [get?, h]
  rfl

/-- A name that resolves is known to all lookups, with the cells of its column. -/
theorem isColumn_of_columnIndex? (h : r.columnIndex? name = some column) :
    r.IsColumn name column (r.cells column) where
  index := h
  values := by rw [column?, h, Option.map_some]
  size := List.length_map _
  cell := by
    intro index hindex
    have hrow : r.row? index = some r.rows[index] := List.getElem?_eq_getElem hindex
    have hlt : column < r.rows[index].length := by
      rw [r.width _ (List.getElem_mem hindex)]
      exact r.lt_of_columnIndex? h
    refine ⟨r.rows[index], r.rows[index][column], hrow, List.getElem?_eq_getElem hlt, ?_, ?_⟩
    · rw [cells, List.getElem?_map, List.getElem?_eq_getElem hindex, Option.map_some,
        List.getElem?_eq_getElem hlt, Option.getD_some]
    · rw [r.get?_eq_bind h, hrow, Option.bind_some, List.getElem?_eq_getElem hlt]
  beyond := by
    intro index hindex
    have hrow : r.row? index = none := List.getElem?_eq_none hindex
    rw [r.get?_eq_bind h, hrow, Option.bind_none]
  texts := by rw [distinct?, column?, h, Option.map_some, Option.map_some]

/-- A name that does not resolve is known to no lookup. -/
theorem hasNoColumn_of_columnIndex? (h : r.columnIndex? name = none) : r.HasNoColumn name where
  index := h
  values := by rw [column?, h, Option.map_none]
  cell := by
    intro index
    rw [get?, h]
    rfl
  texts := by rw [distinct?, column?, h, Option.map_none, Option.map_none]

end ResultSet

namespace Selection

variable (s : Selection) (names : List String)

/-- The names of the columns of a read agree. If a run of a read of fields ends in a result set, its
request has asked for a column for each field, under its wire name, and the rows are those of the
reply. Then:

* a field is found by its name and by its wire name, in columns that were asked for under the wire
  name of the field;
* by a name that resolves, every lookup finds the cells of the same column, one in every row and none
  behind the last;
* by a name that is neither that of a field nor a wire name of one, no lookup finds anything. -/
theorem columns_of_getFields {log : Transcript} {result : ResultSet}
    (h : (s.getFields names).Runs log (.ok result)) :
    ∃ request response rows, log = [(request, .ok response)] ∧
      request.get? "sign_array" = some (.ofTexts (names.map s.table.field)) ∧
      response.CarriesRows names.length rows ∧ result.rows.Perm rows ∧
      (∀ name ∈ names, ∀ spelling, spelling = name ∨ spelling = s.table.field name →
        ∃ column cells, result.IsColumn spelling column cells ∧
          (names.map s.table.field)[column]? = some (s.table.field name)) ∧
      (∀ name column, result.columnIndex? name = some column →
        ∃ cells, result.IsColumn name column cells) ∧
      ∀ name, name ∉ names → (∀ asked ∈ names, s.table.field asked ≠ name) →
        result.HasNoColumn name := by
  obtain ⟨response, rfl, -, rows, hrows, hresult⟩ :=
    ((Operation.getFields s names).followedBy_course log _ h).of_single
  have hwire : result.qualified = result.columns.map s.table.field := by
    rw [hresult.qualified, hresult.columns]
  refine ⟨_, response, rows, rfl, s.get?_sentFields_signs names, hrows,
    hresult.rows ▸ s.arranged_perm names rows, ?_,
    fun name column hcolumn => ⟨_, result.isColumn_of_columnIndex? hcolumn⟩, ?_⟩
  · intro name hname spelling hspelling
    have hknown : spelling ∈ result.columns ∨ spelling ∈ result.qualified := by
      rcases hspelling with rfl | rfl
      · exact .inl (hresult.columns ▸ hname)
      · exact .inr (hresult.qualified ▸ List.mem_map_of_mem hname)
    have hfield : s.table.field spelling = s.table.field name := by
      rcases hspelling with rfl | rfl
      · rfl
      · exact qualify_qualify s.table.name s.table.name name
    obtain ⟨column, hcolumn⟩ := result.exists_columnIndex? hknown
    refine ⟨column, _, result.isColumn_of_columnIndex? hcolumn, ?_⟩
    rw [← hresult.qualified, ← hfield]
    exact result.getElem?_qualified_of_columnIndex? hwire hcolumn
  · intro name hname hfields
    refine result.hasNoColumn_of_columnIndex? (result.columnIndex?_eq_none_iff.mpr ⟨?_, ?_⟩)
    · rwa [hresult.columns]
    · rw [hresult.qualified, List.mem_map]
      rintro ⟨asked, hasked, heq⟩
      exact hfields asked hasked heq

/-- A field that is asked for twice, in two spellings, and the identifiers: both names of the field
stand for columns of it, and the status, which was not asked for, has none. -/
theorem twoSpellings_columns_of_getFields :
    let names := ["artist", "task.artist", "#id"]
    ∃ log result, ((ofTasks ["7"]).getFields names).Runs log (.ok result) ∧
      (∃ column cells, result.IsColumn "artist" column cells ∧
        ["task.artist", "task.artist", "#id"][column]? = some "task.artist") ∧
      (∃ column cells, result.IsColumn "task.artist" column cells ∧
        ["task.artist", "task.artist", "#id"][column]? = some "task.artist") ∧
      result.HasNoColumn "status" ∧ result.HasNoColumn "task.status" := by
  intro names
  have hwidth : ∀ row ∈ ([[.string "ann", .string "ann", .string "7"]] : List (List Datum)),
      row.length = names.length := by decide
  obtain ⟨result, hmade, -⟩ := (ofTasks ["7"]).exists_resultOf names hwidth
  have hruns : ∃ log, ((ofTasks ["7"]).getFields names).Runs log (.ok result) := by
    rw [Operation.selection_getFields_eq]
    exact ⟨_, Call.runs_single_iff.mpr ⟨.ok (textRows [["ann", "ann", "7"]]), rfl, hmade.symm⟩⟩
  obtain ⟨log, hruns⟩ := hruns
  obtain ⟨-, -, -, -, -, -, -, hnames, -, hothers⟩ := columns_of_getFields _ _ hruns
  have hwire : names.map (ofTasks ["7"]).table.field = ["task.artist", "task.artist", "#id"] := by
    decide
  rw [hwire] at hnames
  exact ⟨log, result, hruns, hnames "artist" (.head _) _ (.inl rfl),
    hnames "artist" (.head _) _ (.inr (by decide)), hothers _ (by decide) (by decide),
    hothers _ (by decide) (by decide)⟩

end Selection

end RemoteTable
