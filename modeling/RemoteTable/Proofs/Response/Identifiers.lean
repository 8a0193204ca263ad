import RemoteTable.Proofs.Response.Readings

/-!
# Rows and identifiers of one reply

The data of a reply can be read as rows of cells or as identifiers. The two readings go separate ways
to the text of a number, and agree: the identifiers are the plain texts of the first cells
(`Response.ids_eq_ok_iff_of_rows`), and a list of values stands for the rows with these values alone
(`Response.ids_of_values`). Both take every element of a list or nothing (`Response.ReadsElements`).
-/

namespace RemoteTable

/-- What stands at a place of a list is related to what stands at this place of a related list. -/
theorem exists_getElem?_of_forall₂ {α β : Type} {related : α → β → Prop} {l : List α} {l' : List β}
    (h : List.Forall₂ related l l') {i : ℕ} {a : α} (ha : l[i]? = some a) :
    ∃ b, l'[i]? = some b ∧ related a b := by
  induction h generalizing i with
  | nil => cases ha
  | cons hfirst _ ih =>
    cases i with
    | zero =>
      cases ha
      exact ⟨_, rfl, hfirst⟩
    | succ i => exact ih ha

/-- Whether a datum is a text or a number, as identifiers are. -/
def Datum.IsIdentifying (d : Datum) : Prop :=
  (∃ text, d = .string text) ∨ ∃ n, d = .number n

/-- The value in an element of a list that an identifier is read from: the first cell of a row, or the
element itself. -/
def Json.identifying : Json → Json
  | .array [] => .null
  | .array (cell :: _) => cell
  | other => other

namespace Response

variable {r : Response} {item value : Json} {items : List Json} {id : String}
variable {row : List Datum} {rows : List (List Datum)} {ids : List String}

/-! ## Identifiers -/

/-- A value spells the plain text of its datum, if that is a text or a number. -/
theorem spellsIdentifier_iff :
    SpellsIdentifier value id ↔
      (Datum.ofJson value).IsIdentifying ∧ (Datum.ofJson value).plain = id := by
  constructor
  · intro h
    cases h with
    | text => exact ⟨.inl ⟨_, rfl⟩, rfl⟩
    | number n => exact ⟨.inr ⟨n, rfl⟩, rfl⟩
  · rintro ⟨⟨text, h⟩ | ⟨n, h⟩, rfl⟩
    · obtain rfl : value = .string text := by rw [← Datum.toJson_ofJson value, h, Datum.toJson]
      exact .text text
    · obtain rfl : value = .number n := by rw [← Datum.toJson_ofJson value, h, Datum.toJson]
      exact .number n

/-- What identifies an element is a text or a number, by itself or in front of a row. -/
theorem hasIdentifier_iff : HasIdentifier item id ↔ SpellsIdentifier item.identifying id := by
  constructor
  · rintro (⟨⟨⟩ | ⟨⟩⟩ | h)
    · exact .text _
    · exact .number _
    · exact h
  · intro h
    match item, h with
    | .array (_ :: _), h => exact .row h
    | .string _, h => exact .value h
    | .number _, h => exact .value h

/-- Whether a row begins with a text or a number whose plain text is an identifier. -/
def BeginsWithIdentifier (row : List Datum) (id : String) : Prop :=
  ∃ cell cells, row = cell :: cells ∧ cell.IsIdentifying ∧ cell.plain = id

/-- What identifies a row is its first cell. -/
theorem hasIdentifier_row_iff :
    HasIdentifier (.array (Datum.toItems row)) id ↔ BeginsWithIdentifier row id := by
  rw [hasIdentifier_iff, spellsIdentifier_iff]
  cases row with
  | nil => simp [BeginsWithIdentifier, Datum.toItems, Json.identifying, Datum.ofJson,
      Datum.IsIdentifying]
  | cons cell cells => simp [BeginsWithIdentifier, Datum.toItems, Json.identifying]

/-! ## Rows and identifiers -/

/-- If the data are rows, the identifiers are the plain texts of their first cells. -/
theorem ids_eq_ok_iff_of_rows (h : r.rows = .ok rows) :
    r.ids = .ok ids ↔ List.Forall₂ BeginsWithIdentifier rows ids := by
  rw [ids_eq_ok_iff]
  rcases rows_eq_ok_iff.mp h with hdata | ⟨rfl, hdata⟩
  · simp [hdata, hasIdentifier_row_iff]
  · -- what stands for no rows stands for no identifiers, and is not a list
    have hlist : ∀ items, r.data ≠ .array items := by
      rintro items hitems
      rw [hitems] at hdata
      simp at hdata
    simp [hlist, hdata]

/-- How the identifiers of a reply agree with its rows. -/
structure IdsAgree (r : Response) (rows : List (List Datum)) : Prop where
  /-- Identifiers that are read are as many as the rows, and each is the plain text of the first cell
  of its row. -/
  read : ∀ ids, r.ids = .ok ids → ids.length = rows.length ∧
    ∀ (i : ℕ) id, ids[i]? = some id → ∃ cell cells, rows[i]? = some (cell :: cells) ∧ cell.plain = id
  /-- They are read if every row begins with a text or a number. -/
  identified : (∀ row ∈ rows, ∃ cell cells, row = cell :: cells ∧ cell.IsIdentifying) →
    ∃ ids, r.ids = .ok ids
  /-- Otherwise the reply is unexpected. -/
  unidentified : (∃ row ∈ rows, row = [] ∨ ∃ cell cells, row = cell :: cells ∧ ¬ cell.IsIdentifying) →
    ∃ fault, r.ids = .error (.unexpectedResponse fault)

/-- Rows that are read agree with the identifiers that are read. -/
theorem idsAgree_of_rows (h : r.rows = .ok rows) : r.IdsAgree rows where
  read := by
    intro ids hids
    have hrows := (ids_eq_ok_iff_of_rows h).mp hids
    refine ⟨hrows.length_eq.symm, fun i id hid => ?_⟩
    obtain ⟨_, hrow, cell, cells, rfl, -, hplain⟩ := exists_getElem?_of_forall₂ hrows.flip hid
    exact ⟨cell, cells, hrow, hplain⟩
  identified := by
    intro hrows
    -- the default is for empty rows, of which there are none
    refine ⟨rows.map fun row => (row.head?.getD .null).plain, (ids_eq_ok_iff_of_rows h).mpr ?_⟩
    rw [List.forall₂_map_right_iff, List.forall₂_same]
    intro row hrow
    obtain ⟨cell, cells, rfl, hcell⟩ := hrows row hrow
    exact ⟨cell, cells, rfl, hcell, rfl⟩
  unidentified := by
    rintro ⟨row, hrow, hbad⟩
    refine (reads_ids.fails r).exists_error fun ids hids => ?_
    obtain ⟨i, hi⟩ := List.mem_iff_getElem?.mp hrow
    obtain ⟨_, -, cell, cells, rfl, hcell, -⟩ :=
      exists_getElem?_of_forall₂ ((ids_eq_ok_iff_of_rows h).mp hids) hi
    rcases hbad with hempty | ⟨cell', cells', heq, hcell'⟩
    · cases hempty
    · cases heq
      exact hcell' hcell

/-! ## Single values -/

/-- A list of texts and numbers stands for the rows with these values alone: the identifiers are the
same. -/
theorem ids_of_values (r : Response) (h : ∀ item ∈ items, (Datum.ofJson item).IsIdentifying) :
    { r with data := .array items }.ids = .ok (items.map fun item => (Datum.ofJson item).plain) ∧
    { r with data := .array (items.map fun item => .array [item]) }.rows =
      .ok (items.map fun item => [.ofJson item]) ∧
    { r with data := .array (items.map fun item => .array [item]) }.ids =
      .ok (items.map fun item => (Datum.ofJson item).plain) := by
  have hvalue : ∀ item ∈ items, SpellsIdentifier item (Datum.ofJson item).plain :=
    fun item hitem => spellsIdentifier_iff.mpr ⟨h item hitem, rfl⟩
  refine ⟨ids_eq_ok_iff.mpr (.inl ⟨items, rfl, ?_⟩), rows_eq_ok_iff.mpr (.inl ?_),
    ids_eq_ok_iff.mpr (.inl ⟨_, rfl, ?_⟩)⟩
  · rw [List.forall₂_map_right_iff, List.forall₂_same]
    exact fun item hitem => .value (hvalue item hitem)
  · simp [Datum.toItems]
  · rw [List.forall₂_map_left_iff, List.forall₂_map_right_iff, List.forall₂_same]
    exact fun item hitem => .row (hvalue item hitem)

/-! ## All elements or none -/

/-- Whether a reading of lists takes every element of a list or nothing. -/
structure ReadsElements {α : Type} (read : Response → Except Error (List α)) (part : Json → α → Prop) :
    Prop where
  /-- What is read of a list are its elements, in their places. -/
  ok_iff : ∀ {r : Response} {items : List Json} {found : List α}, r.data = .array items →
    (read r = .ok found ↔ List.Forall₂ part items found)
  /-- One element that cannot be read is enough for the reply to be unexpected. -/
  refused : ∀ {r : Response} {items : List Json} {item : Json}, r.data = .array items → item ∈ items →
    (∀ a, ¬ part item a) → ∃ fault, read r = .error (.unexpectedResponse fault)
  /-- Nothing and the empty text stand for the list without elements. -/
  nothing : ∀ {r : Response}, r.data = .null ∨ r.data = .string "" → read r = .ok []
  /-- Other data are unexpected. -/
  others : ∀ {r : Response}, (∀ items, r.data ≠ .array items) → r.data ≠ .null → r.data ≠ .string "" →
    ∃ fault, read r = .error (.unexpectedResponse fault)

/-- A reading that is told by its successes and fails only for the reply reads all elements or none.
-/
theorem ReadsElements.of_ok_iff {α : Type} {read : Response → Except Error (List α)}
    {part : Json → α → Prop}
    (hread : ∀ {r found}, read r = .ok found ↔
      (∃ items, r.data = .array items ∧ List.Forall₂ part items found) ∨
        found = [] ∧ (r.data = .null ∨ r.data = .string ""))
    (hfails : ∀ r, FailsUnexpected (read r)) : ReadsElements read part := by
  have hlist : ∀ {r items found}, r.data = .array items →
      (read r = .ok found ↔ List.Forall₂ part items found) := by
    intro r items found hdata
    simp [hread, hdata]
  refine ⟨hlist, ?_, fun hdata => hread.mpr (.inr ⟨rfl, hdata⟩), ?_⟩
  · intro r items item hdata hitem hpart
    refine (hfails r).exists_error fun found hfound => ?_
    obtain ⟨i, hi⟩ := List.mem_iff_getElem?.mp hitem
    obtain ⟨a, -, ha⟩ := exists_getElem?_of_forall₂ ((hlist hdata).mp hfound) hi
    exact hpart a ha
  · intro r harray hnull hempty
    refine (hfails r).exists_error fun found hfound => ?_
    rcases hread.mp hfound with ⟨items, hdata, -⟩ | ⟨-, hdata | hdata⟩
    · exact harray items hdata
    · exact hnull hdata
    · exact hempty hdata

theorem readsElements_rows :
    ReadsElements Response.rows fun item row => item = .array (Datum.toItems row) := by
  refine .of_ok_iff (fun {r found} => ?_) failsUnexpected_rows
  simp [rows_eq_ok_iff, forall₂_row_iff]

theorem readsElements_ids : ReadsElements Response.ids HasIdentifier :=
  .of_ok_iff ids_eq_ok_iff reads_ids.fails

end Response

end RemoteTable
