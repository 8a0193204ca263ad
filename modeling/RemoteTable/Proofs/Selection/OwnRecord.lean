import RemoteTable.Proofs.Operation.Course
import RemoteTable.Proofs.Selection.Reordering

/-!
# The row of an entry's own record

An entry takes the first row of a read that was sorted by its one identifier. The rows of the record
are the only block of that order, so they come before all other rows, and the first of them is the
first of them in the reply (`Entry.head?_arranged`). Without a row there is nothing to take, and this
and data of another shape are the only ways to fail (`Entry.getFields_own_row`).
-/

namespace RemoteTable

/-! ## First rows -/

namespace ResultSet

/-- Whether a row is the first of all rows with an identifier in a column. -/
def IsFirstOf (rows : List (List Datum)) (column : ℕ) (id : String) (row : List Datum) : Prop :=
  ∃ before after, rows = before ++ row :: after ∧ rowId column row = id ∧
    ∀ other ∈ before, rowId column other ≠ id

variable {rows : List (List Datum)} {column : ℕ} {id : String} {row : List Datum}

/-- The first row of an identifier is the one that is found for it. -/
theorem isFirstOf_iff : IsFirstOf rows column id row ↔ rows.find? (rowId column · = id) = some row := by
  rw [List.find?_eq_some_iff_append]
  constructor
  · rintro ⟨before, after, hrows, hid, hbefore⟩
    exact ⟨decide_eq_true hid, before, after, hrows, fun other hother => by
      simpa using hbefore other hother⟩
  · rintro ⟨hid, before, after, hrows, hbefore⟩
    exact ⟨before, after, hrows, of_decide_eq_true hid, fun other hother => by
      simpa using hbefore other hother⟩

/-- If an identifier has rows, it has a first one. -/
theorem exists_isFirstOf (h : ∃ row ∈ rows, rowId column row = id) :
    ∃ row, IsFirstOf rows column id row := by
  obtain ⟨row, hrow, hid⟩ := h
  have hfound : (rows.find? (rowId column · = id)).isSome :=
    List.find?_isSome.mpr ⟨row, hrow, decide_eq_true hid⟩
  obtain ⟨first, hfirst⟩ := Option.isSome_iff_exists.mp hfound
  exact ⟨first, isFirstOf_iff.mpr hfirst⟩

/-- Sorting by one identifier puts its first row in front. -/
theorem head?_mergeSort_precedes (h : IsFirstOf rows column id row) :
    (rows.mergeSort (precedes [id] column)).head? = some row := by
  rw [mergeSort_precedes_eq_blocks, blocks_cons_of_notMem List.not_mem_nil, List.head?_append,
    List.head?_filter, isFirstOf_iff.mp h, Option.some_or]

end ResultSet

/-! ## Reads of an entry -/

namespace Entry

open ResultSet (IsFirstOf rowId)

variable (e : Entry) (names : List String) {rows : List (List Datum)} {response : Response}

/-- The record's first row comes first, if the identifiers are among the fields. -/
theorem head?_arranged {column : ℕ} {row : List Datum}
    (hcolumn : names.findIdx? (fun name => decide (name ∈ e.table.idNames)) = some column)
    (h : IsFirstOf rows column e.id row) : (e.selection.arranged names rows).head? = some row := by
  have hsorted : e.selection.idColumn? (names.map e.selection.table.field) = some column :=
    (e.selection.idColumn?_eq names).trans hcolumn
  rw [Selection.arranged, hsorted]
  exact ResultSet.head?_mergeSort_precedes h

/-- With a reply of success a read is decided by its rows. -/
theorem outcome_getFields {answer : Request → Reply}
    (hreply : answer (e.selection.sentFields names) = .ok response)
    (hsuccess : response.isSuccess = true) :
    Call.outcome answer (e.getFields names) = Operation.readEntryFields e names response := by
  rw [Operation.entry_getFields_eq, Call.outcome_single, hreply, Table.accepted_ok _ hsuccess]
  rfl

/-- A reply that carries rows is read, unless it carries none. -/
theorem exists_error_readEntryFields_iff (hsuccess : response.isSuccess = true) :
    (∃ error, Operation.readEntryFields e names response = .error error) ↔
      (¬ ∃ rows, response.CarriesRows names.length rows) ∨ response.CarriesRows names.length [] := by
  have hreads := Operation.reads_readEntryFields e names
  constructor
  · rintro ⟨error, herror⟩
    by_cases hcarries : ∃ rows, response.CarriesRows names.length rows
    · obtain ⟨rows, hrows⟩ := hcarries
      cases hhead : (e.selection.arranged names rows).head? with
      | none =>
        have hperm := e.selection.arranged_perm names rows
        rw [List.head?_eq_none_iff.mp hhead] at hperm
        exact .inr (hperm.symm.eq_nil ▸ hrows)
      | some row => cases herror.symm.trans ((hreads.ok_iff hsuccess).mpr ⟨rows, hrows, hhead⟩)
    · exact .inl hcarries
  · intro h
    cases hread : Operation.readEntryFields e names response with
    | error error => exact ⟨error, rfl⟩
    | ok row =>
      obtain ⟨rows, hrows, hhead⟩ := (hreads.ok_iff hsuccess).mp hread
      rcases h with hnone | hnil
      · exact absurd ⟨rows, hrows⟩ hnone
      · -- a reply carries no rows but one list of them
        obtain rfl : [] = rows := Except.ok.inj (hnil.rows_eq.symm.trans hrows.rows_eq)
        have hperm := e.selection.arranged_perm names []
        rw [hperm.eq_nil] at hhead
        cases hhead

/-! ## The entry's own row -/

/-- An entry reads its own record. When a read of fields is answered with success:

* if the identifiers are among the fields and the reply has a row with the entry's identifier, in the
  leftmost column that was asked for by a name of the identifiers, the cells of the first such row are
  returned, whatever the other rows are and wherever they stand;
* whatever the fields are, the read fails exactly if the data are no rows of one cell for each field
  or there is no row, and then as an unexpected response. -/
theorem getFields_own_row (answer : Request → Reply)
    (hreply : answer (e.selection.sentFields names) = .ok response)
    (hcode : response.code = Response.successCode) :
    (∀ rows, response.CarriesRows names.length rows → (∃ name ∈ names, name ∈ e.table.idNames) →
      ∃ column, names.findIdx? (fun name => decide (name ∈ e.table.idNames)) = some column ∧
        ((∃ row ∈ rows, rowId column row = e.id) → ∃ row, IsFirstOf rows column e.id row ∧
          Call.outcome answer (e.getFields names) = .ok row)) ∧
    ((∃ error, Call.outcome answer (e.getFields names) = .error error) ↔
      (¬ ∃ rows, response.CarriesRows names.length rows) ∨ response.CarriesRows names.length []) ∧
    ∀ error, Call.outcome answer (e.getFields names) = .error error →
      ∃ fault, error = .unexpectedResponse fault := by
  have hsuccess : response.isSuccess = true := by simpa [Response.isSuccess] using hcode
  have hreads := Operation.reads_readEntryFields e names
  rw [e.outcome_getFields names hreply hsuccess]
  refine ⟨fun rows hrows hid => ?_, e.exists_error_readEntryFields_iff names hsuccess,
    hreads.fails response⟩
  obtain ⟨column, hcolumn⟩ :
      ∃ column, names.findIdx? (fun name => decide (name ∈ e.table.idNames)) = some column := by
    rw [← Option.isSome_iff_exists, List.findIdx?_isSome, List.any_eq_true]
    simpa using hid
  refine ⟨column, hcolumn, fun hown => ?_⟩
  obtain ⟨row, hrow⟩ := ResultSet.exists_isFirstOf hown
  exact ⟨row, hrow, (hreads.ok_iff hsuccess).mpr ⟨rows, hrows, e.head?_arranged names hcolumn hrow⟩⟩

/-- A task whose two rows come behind that of another task, and a reply without rows. -/
theorem second_getFields_own_row :
    let task : Entry := ⟨(Selection.ofTasks []).table, "7"⟩
    let three : Response :=
      Selection.textRows [["done", "3"], ["open", "7"], ["late", "7"]]
    Call.outcome (fun _ => .ok three) (task.getFields ["status", "#id"]) =
        .ok [.string "open", .string "7"] ∧
      ∃ fault, Call.outcome (fun _ => .ok (.ok .null)) (task.getFields ["status"]) =
        .error (.unexpectedResponse fault) := by
  intro task three
  constructor
  · have hrows : three.CarriesRows 2 [[.string "done", .string "3"], [.string "open", .string "7"],
        [.string "late", .string "7"]] := ⟨rfl, .inl rfl, by decide⟩
    obtain ⟨column, hcolumn, hown⟩ := (task.getFields_own_row ["status", "#id"]
      (fun _ => .ok three) rfl rfl).1 _ hrows ⟨"#id", by decide, by decide⟩
    obtain rfl : 1 = column := Option.some.inj hcolumn
    obtain ⟨row, hfirst, hresult⟩ := hown ⟨_, .tail _ (.head _), rfl⟩
    obtain rfl : [.string "open", .string "7"] = row :=
      Option.some.inj (ResultSet.isFirstOf_iff.mp hfirst)
    exact hresult
  · obtain ⟨-, hfails, hfault⟩ := task.getFields_own_row ["status"]
      (fun _ => .ok (.ok .null)) rfl rfl
    have hnone : (Response.ok .null).CarriesRows 1 [] := ⟨rfl, .inr ⟨rfl, .inl rfl⟩, by simp⟩
    obtain ⟨error, herror⟩ := hfails.mpr (.inr hnone)
    obtain ⟨fault, rfl⟩ := hfault error herror
    exact ⟨fault, herror⟩

end Entry

end RemoteTable
