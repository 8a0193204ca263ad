import RemoteTable.Proofs.Selection.Order

/-!
# Rows in the order of identifiers

Sorting by ranks puts the rows of one identifier into a block, the blocks into the order of the
identifiers, and the rows of all other identifiers behind them (`ResultSet.rows_orderByIds_eq_blocks`).
Inside a block, and behind the blocks, the rows stand as they stood before. With identifiers that are
not repeated this says where every row goes (`ResultSet.orderByIds_stable`).
-/

namespace RemoteTable

namespace ResultSet

/-! ## Ranks of other identifiers -/

section

variable {ids : List String} {id other : String}

/-- Identifiers that are not listed come behind all others. -/
theorem rank_of_notMem (h : id ∉ ids) : rank ids id = ids.length := by
  rw [rank, findIdx?_reverse_eq_none h]

/-- Listed identifiers, and they alone, come in front of the end. -/
theorem rank_lt_iff : rank ids id < ids.length ↔ id ∈ ids := by
  constructor
  · intro hlt
    by_contra h
    rw [rank_of_notMem h] at hlt
    exact Nat.lt_irrefl _ hlt
  · exact fun h => (List.getElem?_eq_some_iff.mp (getElem?_rank h)).1

/-- An identifier in front counts only for itself, and not if it stands behind once more. -/
theorem rank_cons_of_ne_or_mem (h : id ≠ other ∨ id ∈ ids) :
    rank (other :: ids) id = rank ids id + 1 := by
  by_cases hid : id ∈ ids
  · exact rank_cons_of_mem other hid
  · have hne : id ∉ other :: ids := List.not_mem_cons_of_ne_of_not_mem (h.resolve_right hid) hid
    rw [rank_of_notMem hne, rank_of_notMem hid, List.length_cons]

/-- Without repetitions an identifier has the rank of its place. -/
theorem rank_eq_of_nodup (hids : ids.Nodup) {i : ℕ} (h : ids[i]? = some id) : rank ids id = i := by
  obtain ⟨hlt, -⟩ := List.getElem?_eq_some_iff.mp h
  have hrank := getElem?_rank (List.mem_of_getElem? h)
  exact ((List.getElem?_inj hlt hids).mp (h.trans hrank.symm)).symm

end

/-! ## Blocks -/

section

variable {α : Type} (key : α → String) (ids : List String)

/-- The elements of a list in blocks, one for each identifier at the place of its last occurrence, and
behind them the elements of other identifiers. -/
def blocks (l : List α) : List α :=
  (ids.dedup.flatMap fun id => l.filter (key · = id)) ++ l.filter (key · ∉ ids)

variable {key ids} {id : String} {l : List α}

/-- An identifier that is listed again has its block there. -/
theorem blocks_cons_of_mem (h : id ∈ ids) (l : List α) :
    blocks key (id :: ids) l = blocks key ids l := by
  have hmem : ∀ a : α, key a ∈ id :: ids ↔ key a ∈ ids := by
    intro a
    rw [List.mem_cons, or_iff_right_of_imp fun ha => ha ▸ h]
  simp only [blocks, List.dedup_cons_of_mem h, hmem]

/-- The block of an identifier that does not come once more stands in front of the blocks of the
others. -/
theorem blocks_cons_of_notMem (h : id ∉ ids) (l : List α) :
    blocks key (id :: ids) l = l.filter (key · = id) ++ blocks key ids (l.filter (key · ≠ id)) := by
  have hblock : ∀ other ∈ ids.dedup,
      l.filter (key · = other) = (l.filter (key · ≠ id)).filter (key · = other) := by
    intro other hother
    rw [List.filter_filter]
    refine List.filter_congr fun a _ => ?_
    by_cases ha : key a = other
    · have hne : other ≠ id := fun heq => h (List.mem_dedup.mp (heq ▸ hother))
      simp [ha, hne]
    · simp [ha]
  have hothers : l.filter (key · ∉ id :: ids) = (l.filter (key · ≠ id)).filter (key · ∉ ids) := by
    rw [List.filter_filter]
    refine List.filter_congr fun a _ => ?_
    simp [Bool.and_comm]
  rw [blocks, blocks, List.dedup_cons_of_notMem h, List.flatMap_cons, List.append_assoc,
    List.flatMap_congr hblock, hothers]

/-- A list in which the elements of a kind come first is divided by the kind. -/
theorem filter_append_filter_of_pairwise {kind : α → Prop} [DecidablePred kind]
    (h : l.Pairwise fun a b => kind b → kind a) : l.filter (kind ·) ++ l.filter (¬ kind ·) = l := by
  induction l with
  | nil => rfl
  | cons a l ih =>
    obtain ⟨hfirst, hl⟩ := List.pairwise_cons.mp h
    by_cases ha : kind a
    · rw [List.filter_cons_of_pos (by simpa using ha), List.filter_cons_of_neg (by simpa using ha),
        List.cons_append, ih hl]
    · have hnone : ∀ b ∈ a :: l, ¬ kind b := by
        intro b hb hkind
        rcases List.mem_cons.mp hb with rfl | hb
        · exact ha hkind
        · exact ha (hfirst b hb hkind)
      have hfront : (a :: l).filter (kind ·) = [] :=
        List.filter_eq_nil_iff.mpr fun b hb => by simpa using hnone b hb
      rw [hfront, List.nil_append]
      exact List.filter_eq_self.mpr fun b hb => by simpa using hnone b hb

/-- A list in the order of ranks is the list of its blocks. -/
theorem blocks_eq_of_pairwise (h : l.Pairwise fun a b => rank ids (key a) ≤ rank ids (key b)) :
    blocks key ids l = l := by
  induction ids generalizing l with
  | nil => simp [blocks]
  | cons id ids ih =>
    by_cases hid : id ∈ ids
    · -- the identifier counts at its later place only
      have hrank : ∀ a : α, rank (id :: ids) (key a) = rank ids (key a) + 1 := by
        intro a
        refine rank_cons_of_ne_or_mem ?_
        by_cases ha : key a = id
        · exact .inr (ha ▸ hid)
        · exact .inl ha
      simp only [hrank, Nat.add_le_add_iff_right] at h
      rw [blocks_cons_of_mem hid, ih h]
    · have hfirst : l.Pairwise fun a b => key b = id → key a = id := by
        refine h.imp fun {a b} hab hb => ?_
        by_contra ha
        rw [hb, rank_cons_self hid, rank_cons_of_ne_or_mem (.inl ha)] at hab
        omega
      have hothers : (l.filter (key · ≠ id)).Pairwise fun a b =>
          rank ids (key a) ≤ rank ids (key b) := by
        refine (h.filter _).imp_of_mem fun {a b} ha hb hab => ?_
        have ha' : key a ≠ id := by simpa using (List.mem_filter.mp ha).2
        have hb' : key b ≠ id := by simpa using (List.mem_filter.mp hb).2
        rw [rank_cons_of_ne_or_mem (.inl ha'), rank_cons_of_ne_or_mem (.inl hb')] at hab
        omega
      rw [blocks_cons_of_notMem hid, ih hothers]
      exact filter_append_filter_of_pairwise hfirst

end

/-! ## Reordered rows -/

variable (column : ℕ) (ids : List String)

/-- Rows of identifiers that are not listed keep their order. -/
theorem filter_mergeSort_precedes_of_notMem (rows : List (List Datum)) :
    (rows.mergeSort (precedes ids column)).filter (rowId column · ∉ ids) =
      rows.filter (rowId column · ∉ ids) := by
  refine filter_mergeSort_precedes column ids (fun a b ha hb => ?_) rows
  rw [rank_of_notMem (of_decide_eq_true ha), rank_of_notMem (of_decide_eq_true hb)]

/-- Sorted rows stand in the blocks of their identifiers. -/
theorem mergeSort_precedes_eq_blocks (rows : List (List Datum)) :
    rows.mergeSort (precedes ids column) = blocks (rowId column) ids rows := by
  have hsorted := (List.pairwise_mergeSort (precedes_trans ids column) (precedes_total ids column)
    rows).imp precedes_iff.mp
  rw [← blocks_eq_of_pairwise hsorted, blocks, filter_mergeSort_precedes_of_notMem]
  simp only [filter_mergeSort_precedes_eq]
  rfl

variable (r : ResultSet)

/-- Sorted rows are the blocks of the identifiers, one behind the other. -/
theorem rows_orderByIds_eq_blocks :
    (r.orderByIds column ids).rows = blocks (rowId column) ids r.rows :=
  mergeSort_precedes_eq_blocks column ids r.rows

/-- Rows of listed identifiers come before the others. -/
theorem pairwise_mem_orderByIds :
    (r.orderByIds column ids).rows.Pairwise fun a b =>
      rowId column b ∈ ids → rowId column a ∈ ids := by
  refine (List.pairwise_map.mp (r.pairwise_orderByIds column ids)).imp fun {a b} hab hb => ?_
  exact rank_lt_iff.mp (Nat.lt_of_le_of_lt hab (rank_lt_iff.mpr hb))

/-- Rows of an earlier identifier come before those of a later one. -/
theorem pairwise_le_orderByIds {ids : List String} (hids : ids.Nodup) :
    (r.orderByIds column ids).rows.Pairwise fun a b => ∀ i j : ℕ,
      ids[i]? = some (rowId column a) → ids[j]? = some (rowId column b) → i ≤ j := by
  refine (List.pairwise_map.mp (r.pairwise_orderByIds column ids)).imp fun {a b} hab i j hi hj => ?_
  rwa [rank_eq_of_nodup hids hi, rank_eq_of_nodup hids hj] at hab

/-- Sorted rows are not moved again. -/
theorem orderByIds_orderByIds :
    (r.orderByIds column ids).orderByIds column ids = r.orderByIds column ids := by
  have hsorted := List.pairwise_mergeSort (precedes_trans ids column) (precedes_total ids column) r.rows
  exact eq_of_rows rfl rfl (List.mergeSort_of_pairwise hsorted)

/-- How rows stand after they were sorted by identifiers, which are read from the cells of a column,
given the rows as they stood before. -/
structure IsSortedBy (column : ℕ) (ids : List String) (before after : List (List Datum)) : Prop where
  /-- No row is lost, doubled or changed. -/
  perm : after.Perm before
  /-- Rows of listed identifiers come before the others. -/
  listed : after.Pairwise fun a b => rowId column b ∈ ids → rowId column a ∈ ids
  /-- Rows of an earlier identifier come before those of a later one. -/
  increasing : after.Pairwise fun a b => ∀ i j : ℕ,
    ids[i]? = some (rowId column a) → ids[j]? = some (rowId column b) → i ≤ j
  /-- Rows of one identifier keep their order. -/
  alike : ∀ id, after.filter (rowId column · = id) = before.filter (rowId column · = id)
  /-- Rows of identifiers that are not listed keep their order. -/
  unlisted : after.filter (rowId column · ∉ ids) = before.filter (rowId column · ∉ ids)

/-- Sorting the rows by identifiers that are not repeated is stable:

* every row has a cell in the column, and its plain text is the identifier of the row;
* the columns stay as they are, and the rows are sorted by their identifiers;
* they stand in one order: the rows of the first identifier, those of the second and so on, and at
  the end the rows of identifiers that are not listed, each of these as they stood before;
* sorting once more changes nothing. -/
theorem orderByIds_stable {column : ℕ} (hcolumn : column < r.columns.length) {ids : List String}
    (hids : ids.Nodup) :
    (∀ row ∈ r.rows, ∃ cell, row[column]? = some cell ∧ rowId column row = cell.plain) ∧
    (r.orderByIds column ids).columns = r.columns ∧
    (r.orderByIds column ids).qualified = r.qualified ∧
    IsSortedBy column ids r.rows (r.orderByIds column ids).rows ∧
    (r.orderByIds column ids).rows =
      (ids.flatMap fun id => r.rows.filter (rowId column · = id)) ++
        r.rows.filter (rowId column · ∉ ids) ∧
    (r.orderByIds column ids).orderByIds column ids = r.orderByIds column ids := by
  have hsorted : IsSortedBy column ids r.rows (r.orderByIds column ids).rows :=
    { perm := r.orderByIds_perm column ids
      listed := r.pairwise_mem_orderByIds column ids
      increasing := r.pairwise_le_orderByIds column hids
      alike := r.filter_orderByIds column ids
      unlisted := filter_mergeSort_precedes_of_notMem column ids r.rows }
  have hblocks := r.rows_orderByIds_eq_blocks column ids
  rw [blocks, hids.dedup] at hblocks
  refine ⟨fun row hrow => ?_, rfl, rfl, hsorted, hblocks, r.orderByIds_orderByIds column ids⟩
  have hlt : column < row.length := by rwa [r.width row hrow]
  have hcell := List.getElem?_eq_getElem hlt
  exact ⟨row[column], hcell, by rw [rowId, hcell]; rfl⟩

/-- Tasks with the artists in front: one without an identifier, two rows of each of two listed
tasks, one of them with a number, and one of a task that is not listed. -/
def sixTasks : ResultSet where
  columns := ["artist", "id"]
  qualified := ["task.artist", "task.id"]
  rows := [[.string "ann", .null], [.string "bob", .number (.integer ⟨7, by decide⟩)],
    [.string "cy", .string "3"], [.string "dan", .string "7"], [.string "eve", .string "9"],
    [.string "fay", .string "3"]]
  named := rfl
  width := by decide

/-- The task that is listed first comes first with both rows, a listed task without rows leaves no
trace, and the rows of no listed task are last. -/
theorem sixTasks_orderByIds_stable :
    1 < sixTasks.columns.length ∧ ["3", "5", "7"].Nodup ∧
      ((sixTasks.orderByIds 1 ["3", "5", "7"]).cells 0).map Datum.plain =
        ["cy", "fay", "bob", "dan", "ann", "eve"] := by
  have hcolumn : 1 < sixTasks.columns.length := by decide
  have hids : ["3", "5", "7"].Nodup := by decide
  obtain ⟨-, -, -, -, hrows, -⟩ := sixTasks.orderByIds_stable hcolumn hids
  refine ⟨hcolumn, hids, ?_⟩
  rw [cells, hrows]
  rfl

end ResultSet

end RemoteTable
