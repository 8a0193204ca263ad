import RemoteTable.Proofs.Operation.Course
import RemoteTable.Proofs.Response.Identifiers
import RemoteTable.Proofs.Selection.Reordering

/-!
# Resolved identifiers in later reads

A selection has the identifiers that a reply was read as, and a later read finds the identifiers of
its rows in their cells. Both are the same texts of the same values, so the rows of resolved records
are known again, whatever their identifiers are written as (`Selection.KnowsAgain`).
-/

namespace RemoteTable

theorem Datum.getElem?_ofItems (items : List Json) (i : ℕ) :
    (Datum.ofItems items)[i]? = items[i]?.map Datum.ofJson := by
  rw [Datum.ofItems_eq_map, List.getElem?_map]

/-! ## Resolved identifiers in later replies -/

namespace Selection

open ResultSet (rank rank_lt_iff rowId precedes precedes_iff precedes_trans precedes_total)

/-- Whether reads of fields know the records of a selection again by the values that they were resolved
from. In a read with the identifiers among its fields, a row of the reply whose cell in their column
repeats one of the values has the identifier at the place of this value, so that it has a rank, and
rows with identifiers of the selection come before all others. -/
def KnowsAgain (s : Selection) (items : List Json) : Prop :=
  ∀ names column log result,
    names.findIdx? (fun name => decide (name ∈ s.table.idNames)) = some column →
    (s.getFields names).Runs log (.ok result) →
      ∃ sent r, log = [(sent, .ok r)] ∧
        (∀ (i : ℕ) item replied cells, items[i]? = some item → r.data = .array replied →
          .array cells ∈ replied → cells[column]? = some item.identifying →
            Datum.ofItems cells ∈ result.rows ∧
            s.ids[i]? = some (rowId column (Datum.ofItems cells)) ∧
            rank s.ids (rowId column (Datum.ofItems cells)) < s.ids.length) ∧
        result.rows.Pairwise fun a b => rowId column b ∈ s.ids → rowId column a ∈ s.ids

variable {s : Selection} {items : List Json} {names : List String} {column : ℕ}

/-- Rows of selected records come before the others. -/
theorem pairwise_mem_arranged (hcolumn : s.idColumn? (names.map s.table.field) = some column)
    (rows : List (List Datum)) :
    (s.arranged names rows).Pairwise fun a b => rowId column b ∈ s.ids → rowId column a ∈ s.ids := by
  rw [arranged, hcolumn]
  refine (List.pairwise_mergeSort (precedes_trans s.ids column) (precedes_total s.ids column)
    rows).imp fun {a b} hab hb => ?_
  exact rank_lt_iff.mp (Nat.lt_of_le_of_lt (precedes_iff.mp hab) (rank_lt_iff.mpr hb))

/-- A selection of the identifiers that are read from values knows these values again. -/
theorem knowsAgain_of_hasIdentifier (h : List.Forall₂ Response.HasIdentifier items s.ids) :
    s.KnowsAgain items := by
  intro names column log result hcolumn hruns
  obtain ⟨r, rfl, -, rows, hrows, hresult⟩ :=
    ((Operation.getFields s names).followedBy_course log _ hruns).of_single
  refine ⟨_, r, rfl, fun i item replied cells hitem hdata hcells hrepeats => ?_, ?_⟩
  · have hrow : Datum.ofItems cells ∈ rows := by
      obtain ⟨j, hj⟩ := List.mem_iff_getElem?.mp hcells
      obtain ⟨row, hrow, heq⟩ := exists_getElem?_of_forall₂
        ((Response.readsElements_rows.ok_iff hdata).mp hrows.rows_eq) hj
      rw [Json.array.inj heq, Datum.ofItems_toItems]
      exact List.mem_of_getElem? hrow
    -- the identifier is read from the value, and the plain text from the datum that it carries
    obtain ⟨id, hid, hhas⟩ := exists_getElem?_of_forall₂ h hitem
    obtain ⟨-, rfl⟩ := Response.spellsIdentifier_iff.mp (Response.hasIdentifier_iff.mp hhas)
    have hrowId : rowId column (Datum.ofItems cells) = (Datum.ofJson item.identifying).plain := by
      rw [rowId, Datum.getElem?_ofItems, hrepeats]
      rfl
    rw [hrowId, hresult.rows]
    exact ⟨(s.arranged_perm names rows).mem_iff.mpr hrow, hid,
      rank_lt_iff.mpr (List.mem_of_getElem? hid)⟩
  · rw [hresult.rows]
    exact pairwise_mem_arranged ((s.idColumn?_eq names).trans hcolumn) rows

end Selection

/-! ## Identifiers and rows of one reply -/

/-- Identifiers and rows agree. For the data of every reply:

* if both are read, the identifiers are as many as the rows and the plain texts of their first cells;
  given rows, the identifiers are read if every row begins with a text or a number, and the reply is
  unexpected if a row is empty or begins with something else;
* a list of texts and numbers has the same identifiers as the list of rows with one of them each, and
  these are the rows of that list;
* of a list all elements are read, or the reply is unexpected;
* so if filters are resolved to a selection, whose identifiers were read from the values of the reply,
  a later read of fields knows the rows again that repeat these values. -/
theorem Response.ids_agree_with_rows :
    (∀ (r : Response) rows, r.rows = .ok rows → r.IdsAgree rows) ∧
    (∀ (r : Response) items, (∀ item ∈ items, (Datum.ofJson item).IsIdentifying) →
      { r with data := .array items }.ids = .ok (items.map fun item => (Datum.ofJson item).plain) ∧
      { r with data := .array (items.map fun item => .array [item]) }.rows =
        .ok (items.map fun item => [.ofJson item]) ∧
      { r with data := .array (items.map fun item => .array [item]) }.ids =
        .ok (items.map fun item => (Datum.ofJson item).plain)) ∧
    ReadsElements Response.rows (fun item row => item = .array (Datum.toItems row)) ∧
    ReadsElements Response.ids HasIdentifier ∧
    ∀ (t : Table) filters log s, (t.filter filters).Runs log (.ok s) →
      ∃ sent r, log = [(sent, .ok r)] ∧ r.ids = .ok s.ids ∧
        ∀ items, r.data = .array items → s.KnowsAgain items := by
  refine ⟨fun r rows => idsAgree_of_rows, fun r items => r.ids_of_values, readsElements_rows,
    readsElements_ids, fun t filters log s hruns => ?_⟩
  obtain ⟨r, rfl, hcode, ids, hids, rfl⟩ :=
    ((Operation.filter t filters).followedBy_course log _ hruns).of_single
  have hread : r.ids = .ok ids := ids_eq_ok_iff.mpr hids.data
  exact ⟨_, r, rfl, hread, fun items hdata =>
    Selection.knowsAgain_of_hasIdentifier ((readsElements_ids.ok_iff hdata).mp hread)⟩

/-- Filters are resolved to a whole number in front of a row and a double on its own, and a later read
knows the row that repeats the double, behind an unknown one in the reply. -/
theorem Response.mixed_ids_agree_with_rows :
    let double : Number := .double (.largest true)
    let items : List Json := [.array [.ofInt 7, .string "open"], .number double]
    let t : Table := ((Client.mk none none).database "db").table "task"
    let known : List Datum := [.string "done", .number double]
    ∃ s sent sent' r' result,
      (t.filter (.single (.ofValue "status" .null))).Runs [(sent, .ok (.ok (.array items)))] (.ok s) ∧
      s.ids = ["7", double.text] ∧
      (s.getFields ["status", "#id"]).Runs [(sent', .ok r')] (.ok result) ∧
      known ∈ result.rows ∧ s.ids[1]? = some (ResultSet.rowId 1 known) := by
  intro double items t known
  obtain ⟨-, -, -, -, hresolved⟩ := ids_agree_with_rows
  let s : Selection := t.select ["7", double.text]
  let r' : Response := .ok (.array [.array [.null, .string "x"], .array [.string "done", .number double]])
  have hruns : ∃ sent, (t.filter (.single (.ofValue "status" .null))).Runs
      [(sent, .ok (.ok (.array items)))] (.ok s) := by
    rw [Table.filter_eq_single]
    exact ⟨_, Call.runs_single_iff.mpr ⟨.ok (.ok (.array items)), rfl, rfl⟩⟩
  have hread : ∃ sent' result, (s.getFields ["status", "#id"]).Runs [(sent', .ok r')] (.ok result) := by
    have hwidth : ∀ row ∈ [[.null, .string "x"], known], row.length = 2 := by simp [known]
    obtain ⟨result, hmade, -⟩ := s.exists_resultOf ["status", "#id"] hwidth
    rw [Operation.selection_getFields_eq]
    exact ⟨_, result, Call.runs_single_iff.mpr ⟨.ok r', rfl, hmade.symm⟩⟩
  obtain ⟨sent, hruns⟩ := hruns
  obtain ⟨sent', result, hread⟩ := hread
  obtain ⟨_, r, hlog, -, hknows⟩ := hresolved _ _ _ _ hruns
  cases hlog
  obtain ⟨_, r'', hlog', hrow, -⟩ := hknows items rfl _ 1 _ _ rfl hread
  cases hlog'
  obtain ⟨hmem, hid, -⟩ :=
    hrow 1 (.number double) _ [.string "done", .number double] rfl rfl (by simp) rfl
  exact ⟨s, sent, sent', r', result, hruns, rfl, hread, hmem, hid⟩

end RemoteTable
