import Mathlib.Data.List.Sort
import RemoteTable.Proofs.Selection.Columns
import RemoteTable.Proofs.Selection.Reordering
import RemoteTable.Proofs.Text.Bytes

/-!
# The different texts of a column

The different texts of a column are collected in increasing order (`ResultSet.pairwise_sortedTexts`), so
that they are determined by the texts that occur (`ResultSet.sortedTexts_congr`). How often a row stands
in a result set, and where, does not matter to them (`ResultSet.distinct_by_cells`).
-/

namespace RemoteTable

namespace ResultSet

/-! ## Increasing texts -/

section

variable {texts texts' : List String} {text other : String}

/-- An insertion adds one text and loses none. -/
theorem mem_insertText : other ∈ insertText text texts ↔ other = text ∨ other ∈ texts := by
  induction texts with
  | nil => simp [insertText]
  | cons first texts ih =>
    rw [insertText]
    split
    case isTrue => rw [List.mem_cons]
    case isFalse =>
      split
      case isTrue heq =>
        rw [heq, List.mem_cons]
        exact (or_iff_right_of_imp .inl).symm
      case isFalse => rw [List.mem_cons, List.mem_cons, ih, or_left_comm]

/-- An insertion keeps the order, and a text that is there already is not repeated. -/
theorem pairwise_insertText (text : String) (h : texts.Pairwise (· < ·)) :
    (insertText text texts).Pairwise (· < ·) := by
  induction texts with
  | nil => exact List.pairwise_singleton _ _
  | cons first texts ih =>
    obtain ⟨hfirst, htexts⟩ := List.pairwise_cons.mp h
    rw [insertText]
    split
    case isTrue hlt =>
      refine List.pairwise_cons.mpr ⟨fun other hother => ?_, h⟩
      rcases List.mem_cons.mp hother with rfl | hother
      · exact hlt
      · exact String.lt_trans hlt (hfirst other hother)
    case isFalse hnot =>
      split
      case isTrue => exact h
      case isFalse hne =>
        refine List.pairwise_cons.mpr ⟨fun other hother => ?_, ih htexts⟩
        rcases mem_insertText.mp hother with rfl | hother
        · exact (lt_trichotomy first other).resolve_right (not_or.mpr ⟨Ne.symm hne, hnot⟩)
        · exact hfirst other hother

/-- Sorting loses no text and adds none. -/
theorem mem_sortedTexts : text ∈ sortedTexts texts ↔ text ∈ texts := by
  induction texts with
  | nil => exact Iff.rfl
  | cons first texts ih =>
    rw [sortedTexts, List.foldr_cons, mem_insertText, ← sortedTexts, ih, List.mem_cons]

/-- Sorted texts increase strictly, so that none of them is repeated. -/
theorem pairwise_sortedTexts (texts : List String) : (sortedTexts texts).Pairwise (· < ·) := by
  induction texts with
  | nil => exact List.Pairwise.nil
  | cons first texts ih => exact pairwise_insertText first ih

/-- Only the texts that occur matter, and neither their order nor how often they occur. -/
theorem sortedTexts_congr (h : ∀ text, text ∈ texts ↔ text ∈ texts') :
    sortedTexts texts = sortedTexts texts' := by
  refine (pairwise_sortedTexts texts).eq_of_mem_iff (pairwise_sortedTexts texts') fun text => ?_
  rw [mem_sortedTexts, mem_sortedTexts, h]

end

/-! ## Rows in any order and number -/

variable (r : ResultSet) {r' : ResultSet} {name : String} {column : ℕ}

/-- Every row has a cell in a column, and the plain text of the cell stands for the row. -/
theorem exists_cell (hcolumn : column < r.columns.length) {row : List Datum} (hrow : row ∈ r.rows) :
    ∃ cell, row[column]? = some cell ∧ rowId column row = cell.plain := by
  have hlt : column < row.length := by rwa [r.width row hrow]
  have hcell := List.getElem?_eq_getElem hlt
  exact ⟨row[column], hcell, by rw [rowId, hcell]; rfl⟩

/-- The different texts of a column are the sorted texts of its cells. -/
theorem distinct?_eq (h : r.columnIndex? name = some column) :
    r.distinct? name = some (sortedTexts (r.rows.map (rowId column))) := by
  rw [(r.isColumn_of_columnIndex? h).texts, plain_cells]

/-- Whether two result sets have the same columns and the same rows, each as often as it may be and
wherever it stands. -/
structure SameRows (r r' : ResultSet) : Prop where
  /-- The columns go by the same names. -/
  columns : r'.columns = r.columns
  /-- The columns have the same wire names. -/
  qualified : r'.qualified = r.qualified
  /-- The same rows occur. -/
  rows : ∀ row, row ∈ r'.rows ↔ row ∈ r.rows

/-- Sorting by identifiers keeps the same rows. -/
theorem SameRows.orderByIds (column : ℕ) (ids : List String) : SameRows r (r.orderByIds column ids) where
  columns := rfl
  qualified := rfl
  rows _ := (r.orderByIds_perm column ids).mem_iff

variable {r}

theorem SameRows.columnIndex?_eq (h : SameRows r r') (name : String) :
    r'.columnIndex? name = r.columnIndex? name := by
  rw [columnIndex?, columnIndex?, h.columns, h.qualified]

/-- The same rows have the same different texts. -/
theorem SameRows.distinct?_eq (h : SameRows r r') (hcolumn : r.columnIndex? name = some column) :
    r'.distinct? name = r.distinct? name := by
  rw [r.distinct?_eq hcolumn, r'.distinct?_eq ((h.columnIndex?_eq name).trans hcolumn)]
  refine congrArg some (sortedTexts_congr fun text => ?_)
  simp only [List.mem_map, h.rows]

variable (r)

/-- The different texts of a column are determined by the texts of its cells. For every name that
resolves to a column they are found, and

* they increase strictly in the order of their bytes;
* they are the plain texts of the cells that the rows have in the column;
* they stay the same if the rows are permuted, as by sorting them by any identifiers in any column, and
  if rows are repeated. -/
theorem distinct_by_cells (h : r.columnIndex? name = some column) :
    ∃ texts, r.distinct? name = some texts ∧
      (texts.Pairwise fun a b => utf8Bytes a < utf8Bytes b) ∧
      (∀ text, text ∈ texts ↔
        ∃ row ∈ r.rows, ∃ cell, row[column]? = some cell ∧ cell.plain = text) ∧
      (∀ r' : ResultSet, r'.columns = r.columns → r'.qualified = r.qualified →
        r'.rows.Perm r.rows → r'.distinct? name = some texts) ∧
      (∀ other ids, (r.orderByIds other ids).distinct? name = some texts) ∧
      ∀ r' : ResultSet, SameRows r r' → r'.distinct? name = some texts := by
  have hfound := r.distinct?_eq h
  have hsame : ∀ r' : ResultSet, SameRows r r' →
      r'.distinct? name = some (sortedTexts (r.rows.map (rowId column))) :=
    fun r' hr' => (hr'.distinct?_eq h).trans hfound
  refine ⟨_, hfound, (pairwise_sortedTexts _).imp utf8Bytes_lt_iff.mpr, fun text => ?_,
    fun r' hcolumns hqualified hperm => hsame r' ⟨hcolumns, hqualified, fun _ => hperm.mem_iff⟩,
    fun other ids => hsame _ (.orderByIds r other ids), hsame⟩
  rw [mem_sortedTexts, List.mem_map]
  refine exists_congr fun row => and_congr_right fun hrow => ?_
  obtain ⟨cell, hcell, hid⟩ := r.exists_cell (r.lt_of_columnIndex? h) hrow
  rw [hid, hcell]
  simp

/-- A number and its text fall together, and a missing identifier is the empty text, also when the rows
were sorted by the artists. -/
theorem sixTasks_distinct_by_cells :
    sixTasks.columnIndex? "task.id" = some 1 ∧
      sixTasks.distinct? "task.id" = some ["", "3", "7", "9"] ∧
      (sixTasks.orderByIds 0 ["fay", "ann"]).distinct? "task.id" = some ["", "3", "7", "9"] := by
  have hcolumn : sixTasks.columnIndex? "task.id" = some 1 := by decide
  have hfound : sixTasks.distinct? "task.id" = some ["", "3", "7", "9"] := by decide
  obtain ⟨texts, htexts, -, -, -, hsorted, -⟩ := sixTasks.distinct_by_cells hcolumn
  rw [hfound] at htexts
  obtain rfl := Option.some.inj htexts
  exact ⟨hcolumn, hfound, hsorted 0 ["fay", "ann"]⟩

end ResultSet

end RemoteTable
