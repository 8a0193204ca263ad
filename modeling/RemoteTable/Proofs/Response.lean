import RemoteTable.Proofs.Datum.Json
import RemoteTable.Proofs.Text.Numeral
import RemoteTable.Record

/-!
# Replies with rows and replies with a count

What a reply carries, said by how its data are written: rows of one width (`CarriesRows`), where
nothing and the empty text stand for no rows, or a count (`CarriesCount`), as a number or as a text.
The readings of a reply give back what it carries.
-/

namespace RemoteTable

/-- A check of every element that never fails gives as many results. -/
theorem exists_mapM_eq_ok {α β : Type} {f : α → Except Error β} {l : List α}
    (h : ∀ a ∈ l, ∃ b, f a = .ok b) : ∃ bs, l.mapM f = .ok bs ∧ bs.length = l.length := by
  induction l with
  | nil => exact ⟨[], rfl, rfl⟩
  | cons a l ih =>
    obtain ⟨b, hb⟩ := h a List.mem_cons_self
    obtain ⟨bs, hbs, hlength⟩ := ih fun a ha => h a (List.mem_cons_of_mem _ ha)
    refine ⟨b :: bs, ?_, by simp [hlength]⟩
    rw [List.mapM_cons, hb, hbs]
    rfl

namespace Response

variable {r : Response} {width : ℕ} {rows : List (List Datum)}

/-- Whether a reply is successful and its data are rows of a width. -/
structure CarriesRows (r : Response) (width : ℕ) (rows : List (List Datum)) : Prop where
  /-- The method succeeded. -/
  success : r.isSuccess = true
  /-- The data are a sequence of sequences, or what stands for no rows. -/
  data : r.data = .array (rows.map fun row => .array (Datum.toItems row)) ∨
    rows = [] ∧ (r.data = .null ∨ r.data = .string "")
  /-- Every row has as many cells as the width says. -/
  width : ∀ row ∈ rows, row.length = width

/-- Whether a reply is successful and its data are a count that fits in 64 bits. -/
structure CarriesCount (r : Response) (n : ℕ) : Prop where
  /-- The method succeeded. -/
  success : r.isSuccess = true
  /-- The count fits in 64 bits. -/
  inRange : n < unsignedEnd
  /-- The data are the count as a number or spelled as a text. -/
  data : r.data = .ofNat n ∨ ∃ text, r.data = .string text ∧ SpelledNat n text.toList

/-- Rows of data are read as these rows. -/
theorem mapM_row (rows : List (List Datum)) :
    (rows.map fun row => Json.array (Datum.toItems row)).mapM row = .ok rows := by
  induction rows with
  | nil => rfl
  | cons cells rows ih =>
    have hrow : row (.array (Datum.toItems cells)) = .ok cells := by
      rw [row, Datum.ofItems_toItems]
    rw [List.map_cons, List.mapM_cons, hrow, ih]
    rfl

/-- The rows of a reply are read as they are. -/
theorem CarriesRows.rows_eq (h : r.CarriesRows width rows) : r.rows = .ok rows := by
  unfold Response.rows
  rcases h.data with hdata | ⟨rfl, hdata | hdata⟩
  · rw [hdata]
    exact mapM_row rows
  · rw [hdata]
  · rw [hdata]
    rfl

/-- A count that fits in 64 bits is read, as a number and as a text. -/
theorem count_of_data {n : ℕ} (hn : n < unsignedEnd)
    (hdata : r.data = .ofNat n ∨ ∃ text, r.data = .string text ∧ SpelledNat n text.toList) :
    r.count = .ok n := by
  unfold count
  rcases hdata with hdata | ⟨text, hdata, hspelled⟩
  · have hrange : -(signedEnd : ℤ) ≤ n ∧ (n : ℤ) < unsignedEnd := by omega
    rw [hdata, Json.ofNat, Json.ofInt, WireInt.ofInt?, dif_pos hrange]
    simp [Number.toNat?]
  · rw [hdata]
    simp only [unsigned64?_of_spelledNat hspelled hn]

/-- The count of a reply is read. -/
theorem CarriesCount.count_eq {n : ℕ} (h : r.CarriesCount n) : r.count = .ok n :=
  count_of_data h.inRange h.data

end Response

/-! ## Records -/

namespace HistoryRecord

/-- A row of its width is a history record. -/
theorem exists_ofRow {row : List Datum} (h : row.length = (Record.fields HistoryRecord).length) :
    ∃ record : HistoryRecord, Record.ofRow row = .ok record := by
  match row, h with
  | [_, _, _, _, _, _, _, _, _], _ => exact ⟨_, rfl⟩

end HistoryRecord

namespace Response

/-- Rows of the width of a history record are that many records. -/
theorem CarriesRows.exists_records {r : Response} {rows : List (List Datum)}
    (h : r.CarriesRows (Record.fields HistoryRecord).length rows) :
    ∃ records : List HistoryRecord, Record.ofResponse r = .ok records ∧
      records.length = rows.length := by
  obtain ⟨records, hrecords, hlength⟩ :=
    exists_mapM_eq_ok (f := Record.ofRow) fun row hrow => HistoryRecord.exists_ofRow (h.width row hrow)
  refine ⟨records, ?_, hlength⟩
  rw [Record.ofResponse, h.rows_eq]
  exact hrecords

end Response

end RemoteTable
