import Mathlib.Data.List.Dedup
import RemoteTable.Proofs.Exchange
import RemoteTable.Selection

/-!
# The order of the rows of a read

A read with the identifiers among its fields returns the rows of the reply, sorted by the ranks of
their identifiers. The rank of an identifier is the place of its last occurrence in the selection.
Rows of one identifier therefore come together, at the place of the last of them, in the order of
the reply (`Selection.getFields_sorted`). The column of the identifiers is the selection's list when
equal identifiers stand together in it, and in no other case.
-/

namespace RemoteTable

/-! ## Ranks -/

namespace ResultSet

variable {ids : List String} {id : String}

/-- An identifier that is not listed has no place. -/
theorem findIdx?_reverse_eq_none (h : id ∉ ids) :
    ids.reverse.findIdx? (fun other => other == id) = none := by
  rw [List.findIdx?_eq_none_iff]
  intro other hother
  simp only [beq_eq_false_iff_ne]
  rintro rfl
  exact h (List.mem_reverse.mp hother)

/-- In front of its last occurrence nothing counts. -/
theorem rank_cons_of_mem (other : String) (h : id ∈ ids) :
    rank (other :: ids) id = rank ids id + 1 := by
  have hfound : ∃ n, ids.reverse.findIdx? (fun other => other == id) = some n := by
    rw [← Option.isSome_iff_exists, List.findIdx?_isSome]
    exact List.any_eq_true.mpr ⟨id, List.mem_reverse.mpr h, beq_self_eq_true id⟩
  obtain ⟨n, hn⟩ := hfound
  have hlt : n < ids.length := by
    simpa using (List.findIdx?_eq_some_iff_getElem.mp hn).1
  simp only [rank, List.reverse_cons, List.findIdx?_append, hn, Option.some_or, List.length_cons]
  omega

/-- The first of the identifiers has the least rank, unless it stands there again. -/
theorem rank_cons_self (h : id ∉ ids) : rank (id :: ids) id = 0 := by
  simp [rank, List.findIdx?_append, findIdx?_reverse_eq_none h]

/-- The rank of an identifier is a place where it stands. -/
theorem getElem?_rank (h : id ∈ ids) : ids[rank ids id]? = some id := by
  induction ids with
  | nil => cases h
  | cons other ids ih =>
    by_cases hid : id ∈ ids
    · rw [rank_cons_of_mem other hid, List.getElem?_cons_succ, ih hid]
    · obtain rfl : id = other := (List.mem_cons.mp h).resolve_right hid
      rw [rank_cons_self hid, List.getElem?_cons_zero]

/-- The rank of an identifier is the last place where it stands. -/
theorem le_rank {i : ℕ} (h : ids[i]? = some id) : i ≤ rank ids id := by
  induction ids generalizing i with
  | nil => simp at h
  | cons other ids ih =>
    cases i with
    | zero => exact Nat.zero_le _
    | succ i =>
      rw [List.getElem?_cons_succ] at h
      rw [rank_cons_of_mem other (List.mem_of_getElem? h)]
      exact Nat.succ_le_succ (ih h)

/-- Identifiers of one rank are equal. -/
theorem rank_injective {other : String} (h : id ∈ ids) (hother : other ∈ ids)
    (heq : rank ids id = rank ids other) : id = other := by
  have := getElem?_rank h
  rw [heq, getElem?_rank hother] at this
  exact (Option.some.inj this).symm

/-! ## Lists in the order of ranks -/

/-- The identifiers of a list, equal ones together at the place of the last of them. -/
def gathered (ids : List String) : List String :=
  ids.dedup.flatMap fun id => List.replicate (ids.count id) id

/-- Whether equal identifiers stand together in a list. -/
def Grouped (ids : List String) : Prop :=
  ∀ (i j k : ℕ) (id : String), i < j → j < k → ids[i]? = some id → ids[k]? = some id →
    ids[j]? = some id

/-- Different identifiers are grouped. -/
theorem grouped_of_nodup (h : ids.Nodup) : Grouped ids := by
  intro i j k id hij hjk hi hk
  obtain ⟨hlt, -⟩ := List.getElem?_eq_some_iff.mp hi
  have : i = k := (List.getElem?_inj hlt h).mp (hi.trans hk.symm)
  omega

/-- Without repetitions the ranks increase. -/
theorem pairwise_rank_dedup (ids : List String) :
    ids.dedup.Pairwise fun a b => rank ids a < rank ids b := by
  induction ids with
  | nil => simp
  | cons id ids ih =>
    have hlater : ids.dedup.Pairwise fun a b => rank (id :: ids) a < rank (id :: ids) b := by
      refine List.Pairwise.imp_of_mem (fun {a b} ha hb hab => ?_) ih
      rw [rank_cons_of_mem id (List.mem_dedup.mp ha), rank_cons_of_mem id (List.mem_dedup.mp hb)]
      omega
    by_cases hid : id ∈ ids
    · rwa [List.dedup_cons_of_mem hid]
    · rw [List.dedup_cons_of_notMem hid]
      refine List.pairwise_cons.mpr ⟨?_, hlater⟩
      intro other hother
      rw [rank_cons_self hid, rank_cons_of_mem id (List.mem_dedup.mp hother)]
      omega

/-- Gathered identifiers stand in the order of their ranks. -/
theorem pairwise_rank_gathered (ids : List String) :
    (gathered ids).Pairwise fun a b => rank ids a ≤ rank ids b := by
  refine List.pairwise_flatMap.mpr ⟨?_, (pairwise_rank_dedup ids).imp ?_⟩
  · intro id _
    exact List.pairwise_replicate.mpr (.inr (Nat.le_refl _))
  · intro a b hab x hx y hy
    rw [List.eq_of_mem_replicate hx, List.eq_of_mem_replicate hy]
    exact Nat.le_of_lt hab

/-- Of repeated different elements each occurs as often as it was repeated. -/
theorem count_flatMap_replicate (n : String → ℕ) (id : String) {l : List String} (h : l.Nodup) :
    (l.flatMap fun other => List.replicate (n other) other).count id =
      if id ∈ l then n id else 0 := by
  induction l with
  | nil => rfl
  | cons other l ih =>
    obtain ⟨hother, hl⟩ := List.nodup_cons.mp h
    rw [List.flatMap_cons, List.count_append, ih hl, List.count_replicate]
    by_cases heq : other = id
    · subst heq
      simp [hother]
    · simp [heq, Ne.symm heq]

/-- Every identifier is gathered as often as it occurs. -/
theorem gathered_perm (ids : List String) : (gathered ids).Perm ids := by
  rw [List.perm_iff_count]
  intro id
  rw [gathered, count_flatMap_replicate _ id (List.nodup_dedup ids)]
  split
  case isTrue h => rfl
  case isFalse h => exact (List.count_eq_zero_of_not_mem fun hid => h (List.mem_dedup.mpr hid)).symm

/-- A list of the identifiers in the order of their ranks is the gathered list. -/
theorem eq_gathered {l : List String} (hperm : l.Perm ids)
    (hsorted : l.Pairwise fun a b => rank ids a ≤ rank ids b) : l = gathered ids := by
  refine List.Perm.eq_of_pairwise ?_ hsorted (pairwise_rank_gathered ids)
    (hperm.trans (gathered_perm ids).symm)
  intro a b ha hb hab hba
  -- equal ranks mean equal identifiers only for identifiers of the selection
  exact rank_injective (hperm.mem_iff.mp ha) ((gathered_perm ids).mem_iff.mp hb)
    (Nat.le_antisymm hab hba)

/-- The ranks increase along a list in which equal identifiers stand together, and along no
other. -/
theorem pairwise_rank_iff (ids : List String) :
    (ids.Pairwise fun a b => rank ids a ≤ rank ids b) ↔ Grouped ids := by
  rw [List.pairwise_iff_getElem]
  constructor
  · intro h i j k id hij hjk hi hk
    obtain ⟨hi', rfl⟩ := List.getElem?_eq_some_iff.mp hi
    obtain ⟨hk', hid⟩ := List.getElem?_eq_some_iff.mp hk
    have hle := h i j hi' (by omega) hij
    have hge := h j k (by omega) hk' hjk
    rw [hid] at hge
    -- what stands in between has no other rank than the identifier on both sides
    rw [List.getElem?_eq_getElem (by omega)]
    exact congrArg some (rank_injective (List.getElem_mem _) (List.getElem_mem _)
      (Nat.le_antisymm hge hle))
  · intro h i j hi hj hij
    by_contra hlt
    -- the identifier in front would stand once more behind the one at `j`, so it is that one
    have hlast : j ≤ rank ids ids[j] := le_rank (List.getElem?_eq_getElem hj)
    have hsame := h i j (rank ids ids[i]) ids[i] hij (by omega) (List.getElem?_eq_getElem hi)
      (getElem?_rank (List.getElem_mem hi))
    rw [List.getElem?_eq_getElem hj, Option.some_inj] at hsame
    rw [hsame] at hlt
    exact hlt (Nat.le_refl _)

/-- The gathered list is the list itself when equal identifiers stand together in it, and in no
other case. -/
theorem gathered_eq_iff (ids : List String) : gathered ids = ids ↔ Grouped ids := by
  rw [← pairwise_rank_iff]
  constructor
  · intro h
    have := pairwise_rank_gathered ids
    rwa [h] at this
  · exact fun h => (eq_gathered (List.Perm.refl ids) h).symm

/-! ## Sorted rows -/

/-- The identifier of a row: the plain text of its cell in a column. -/
def rowId (column : ℕ) (row : List Datum) : String :=
  (row[column]?.getD .null).plain

/-- The texts of a column's cells stand for the rows. -/
theorem plain_cells (r : ResultSet) (column : ℕ) :
    (r.cells column).map Datum.plain = r.rows.map (rowId column) := by
  simp [cells, rowId]

/-- There is no more to a result set than its columns and rows. -/
theorem eq_of_rows {r r' : ResultSet} (hcolumns : r.columns = r'.columns)
    (hqualified : r.qualified = r'.qualified) (hrows : r.rows = r'.rows) : r = r' := by
  obtain ⟨columns, qualified, rows, named, width⟩ := r
  obtain ⟨columns', qualified', rows', named', width'⟩ := r'
  obtain rfl : columns = columns' := hcolumns
  obtain rfl : qualified = qualified' := hqualified
  obtain rfl : rows = rows' := hrows
  rfl

/-- Whether the identifier of a row does not come behind that of another row. -/
def precedes (ids : List String) (column : ℕ) (a b : List Datum) : Bool :=
  rank ids (rowId column a) ≤ rank ids (rowId column b)

theorem precedes_iff {ids : List String} {column : ℕ} {a b : List Datum} :
    precedes ids column a b ↔ rank ids (rowId column a) ≤ rank ids (rowId column b) :=
  decide_eq_true_iff

theorem precedes_trans (ids : List String) (column : ℕ) (a b c : List Datum)
    (hab : precedes ids column a b) (hbc : precedes ids column b c) : precedes ids column a c :=
  precedes_iff.mpr (Nat.le_trans (precedes_iff.mp hab) (precedes_iff.mp hbc))

theorem precedes_total (ids : List String) (column : ℕ) (a b : List Datum) :
    precedes ids column a b || precedes ids column b a := by
  rw [Bool.or_eq_true, precedes_iff, precedes_iff]
  exact Nat.le_total _ _

variable (r : ResultSet) (column : ℕ)

theorem rows_orderByIds (ids : List String) :
    (r.orderByIds column ids).rows = r.rows.mergeSort (precedes ids column) := rfl

theorem orderByIds_perm (ids : List String) : (r.orderByIds column ids).rows.Perm r.rows :=
  List.mergeSort_perm ..

/-- The ranks of the identifiers increase from row to row. -/
theorem pairwise_orderByIds (ids : List String) :
    ((r.orderByIds column ids).rows.map (rowId column)).Pairwise fun a b =>
      rank ids a ≤ rank ids b := by
  rw [List.pairwise_map, rows_orderByIds]
  exact (List.pairwise_mergeSort (precedes_trans ids column) (precedes_total ids column) r.rows).imp
    precedes_iff.mp

/-- Sorting keeps the order of rows whose identifiers have one rank. -/
theorem filter_mergeSort_precedes (ids : List String) {kind : List Datum → Bool}
    (hkind : ∀ a b, kind a → kind b → rank ids (rowId column a) = rank ids (rowId column b))
    (rows : List (List Datum)) :
    (rows.mergeSort (precedes ids column)).filter kind = rows.filter kind := by
  have hsorted : (rows.filter kind).Pairwise (precedes ids column · ·) := by
    refine List.pairwise_of_forall_mem_list fun a ha b hb => precedes_iff.mpr ?_
    exact Nat.le_of_eq (hkind a b (List.mem_filter.mp ha).2 (List.mem_filter.mp hb).2)
  have hsub := List.sublist_mergeSort (precedes_trans ids column) (precedes_total ids column)
    hsorted List.filter_sublist
  -- the rows of the kind are as many before as after, so the one list is all of the other
  have hlength := ((List.mergeSort_perm rows (precedes ids column)).filter kind).length_eq
  have := hsub.filter kind
  simp only [List.filter_filter, Bool.and_self] at this
  exact (this.eq_of_length hlength.symm).symm

/-- Rows of one identifier keep their order. -/
theorem filter_mergeSort_precedes_eq (ids : List String) (id : String) (rows : List (List Datum)) :
    (rows.mergeSort (precedes ids column)).filter (rowId column · = id) =
      rows.filter (rowId column · = id) := by
  refine filter_mergeSort_precedes column ids (fun a b ha hb => ?_) rows
  rw [of_decide_eq_true ha, of_decide_eq_true hb]

/-- The rows of one identifier keep their order. -/
theorem filter_orderByIds (ids : List String) (id : String) :
    (r.orderByIds column ids).rows.filter (rowId column · = id) =
      r.rows.filter (rowId column · = id) :=
  filter_mergeSort_precedes_eq column ids id r.rows

/-- The identifiers of the sorted rows are the gathered list. -/
theorem cells_orderByIds {ids : List String} (h : (r.rows.map (rowId column)).Perm ids) :
    ((r.orderByIds column ids).cells column).map Datum.plain = gathered ids := by
  rw [plain_cells]
  exact eq_gathered (((r.orderByIds_perm column ids).map _).trans h)
    (r.pairwise_orderByIds column ids)

end ResultSet

/-! ## Names of identifiers -/

/-- A name is qualified by a point inside or a mark in front. -/
theorem isQualified_iff (name : String) :
    isQualified name = true ↔ '.' ∈ name.toList ∨ name.toList.head? = some '#' := by
  simp [isQualified]

/-- A table in front of a name qualifies it. -/
theorem isQualified_append_dot (a b : String) : isQualified (a ++ ("." ++ b)) = true := by
  rw [isQualified_iff]
  left
  simp

namespace Table

variable {t : Table} {name : String}

theorem field_of_isQualified (h : isQualified name = true) : t.field name = name := by
  rw [field, qualify, if_pos h]

/-- An unqualified name gets the table in front. -/
theorem field_of_not_isQualified (h : isQualified name = false) :
    t.field name = t.name ++ ("." ++ name) := by
  rw [field, qualify, if_neg (by simp [h]), String.append_assoc]

/-- The names that a table's identifiers go by: the short name, the name behind that of the table,
and the system field. -/
def idNames (t : Table) : List String :=
  ["id", t.name ++ ".id", "#id"]

/-- The wire name of exactly these names is that of the identifiers or the system field. -/
theorem field_eq_id_iff (t : Table) (name : String) :
    t.field name = t.field "id" ∨ t.field name = "#id" ↔ name ∈ t.idNames := by
  have hid : t.field "id" = t.name ++ ".id" := field_of_not_isQualified (by decide)
  have hsign : isQualified "#id" = true := by decide
  have htable : isQualified (t.name ++ ".id") = true := isQualified_append_dot t.name "id"
  simp only [idNames, List.mem_cons, List.not_mem_nil, or_false, hid]
  cases h : isQualified name with
  | true =>
    have hne : name ≠ "id" := by
      rintro rfl
      revert h
      decide
    rw [field_of_isQualified h]
    simp [hne]
  | false =>
    have hne : name ≠ t.name ++ ".id" := by
      rintro rfl
      rw [htable] at h
      cases h
    have hne' : name ≠ "#id" := by
      rintro rfl
      rw [hsign] at h
      cases h
    -- the wire name has a point, which the system field's name has not
    have hsystem : t.name ++ ("." ++ name) ≠ "#id" := by
      intro heq
      have hdot : '.' ∈ (t.name ++ ("." ++ name)).toList := by simp
      rw [heq] at hdot
      revert hdot
      decide
    have hcancel : t.name ++ ("." ++ name) = t.name ++ ".id" ↔ name = "id" := by
      rw [show ".id" = "." ++ "id" from rfl, String.append_right_inj, String.append_right_inj]
    rw [field_of_not_isQualified h]
    simp [hne, hne', hsystem, hcancel]

end Table

/-! ## Reads of fields -/

namespace Selection

variable (answer : Request → Reply) (s : Selection) (names : List String)

/-- The one request of a read of fields, as it leaves. -/
def sentFields : Request :=
  s.table.addressed ((s.fieldsRequest names).param "id_array" s.idArray)

/-- The request asks for the fields by their wire names. -/
theorem get?_sentFields_signs :
    (s.sentFields names).get? "sign_array" = some (.ofTexts (names.map s.table.field)) := by
  rw [sentFields, Table.get?_addressed _ _ (by decide)]
  simp [fieldsRequest, Request.get?_param]

/-- A read of fields is decided by the reply to its one request. -/
theorem outcome_getFields :
    Call.outcome answer (s.getFields names) = (do
      let response ← Table.accepted (s.fieldsRequest names) (answer (s.sentFields names))
      let rows ← response.rows
      s.resultOf names rows) := by
  simp only [getFields, Selection.call, Call.outcome_bind, Table.outcome_call,
    Call.outcome_ofExcept]
  rfl

/-- The column of the identifiers is the leftmost that was asked for by one of their names. -/
theorem idColumn?_eq :
    s.idColumn? (names.map s.table.field) =
      names.findIdx? fun name => decide (name ∈ s.table.idNames) := by
  rw [idColumn?, List.findIdx?_map]
  congr 1
  funext name
  rw [Bool.eq_iff_iff, decide_eq_true_iff, ← Table.field_eq_id_iff]
  simp

variable {names}

/-- Rows of the right width become a result set, sorted if the identifiers are among the fields. -/
theorem resultOf_eq {rows : List (List Datum)} {column : ℕ}
    (hcolumn : s.idColumn? (names.map s.table.field) = some column)
    (hwidth : ∀ row ∈ rows, row.length = names.length) :
    s.resultOf names rows =
      .ok (ResultSet.orderByIds ⟨names, names.map s.table.field, rows, by simp, hwidth⟩ column
        s.ids) := by
  simp only [resultOf, ResultSet.ofRows, dif_pos hwidth, bind, Except.bind, hcolumn]
  rfl

/-- A successful reply to a read with the identifiers among its fields, every row of which has a
cell for every field, is returned as a result set:

* its rows are those of the reply, and rows of one identifier keep their order;
* if the identifiers of the rows are the selection's, each as often as there, their column is the
  selection's list with equal identifiers gathered at the place of the last of them;
* so it is the selection's list exactly if equal identifiers stand together in it. -/
theorem getFields_gathered {response : Response} {rows : List (List Datum)}
    (hid : ∃ name ∈ names, name ∈ s.table.idNames)
    (hreply : answer (s.sentFields names) = .ok response) (hok : response.isSuccess = true)
    (hrows : response.rows = .ok rows) (hwidth : ∀ row ∈ rows, row.length = names.length) :
    ∃ column result,
      names.findIdx? (fun name => decide (name ∈ s.table.idNames)) = some column ∧
      Call.outcome answer (s.getFields names) = .ok result ∧ result.columns = names ∧
      result.rows.Perm rows ∧
      (∀ id, result.rows.filter (ResultSet.rowId column · = id) =
        rows.filter (ResultSet.rowId column · = id)) ∧
      ((rows.map (ResultSet.rowId column)).Perm s.ids →
        (result.cells column).map Datum.plain = ResultSet.gathered s.ids ∧
          ((result.cells column).map Datum.plain = s.ids ↔ ResultSet.Grouped s.ids)) := by
  obtain ⟨column, hcolumn⟩ :
      ∃ column, names.findIdx? (fun name => decide (name ∈ s.table.idNames)) = some column := by
    rw [← Option.isSome_iff_exists, List.findIdx?_isSome, List.any_eq_true]
    simpa using hid
  let read : ResultSet := ⟨names, names.map s.table.field, rows, by simp, hwidth⟩
  refine ⟨column, read.orderByIds column s.ids, hcolumn, ?_, rfl, read.orderByIds_perm column s.ids,
    read.filter_orderByIds column s.ids, ?_⟩
  · rw [outcome_getFields, hreply, Table.accepted_ok _ hok]
    show (response.rows >>= fun rows => s.resultOf names rows) = _
    rw [hrows]
    exact s.resultOf_eq (by rw [idColumn?_eq, hcolumn]) hwidth
  · intro hperm
    have hcells := read.cells_orderByIds column hperm
    exact ⟨hcells, by rw [hcells, ResultSet.gathered_eq_iff]⟩

/-- A selection of a table of tasks. -/
def ofTasks (ids : List String) : Selection :=
  ⟨((Client.mk none none).database "db").table "task", ids⟩

/-- A successful reply with rows of texts. -/
def textRows (rows : List (List String)) : Response :=
  Response.ok (.array (rows.map fun row => .array (row.map .string)))

/-- Two tasks whose rows come in the other order, found by the system field behind the status. -/
theorem swapped_getFields_gathered :
    ∃ result, Call.outcome (fun _ => .ok (textRows [["done", "3"], ["open", "7"]]))
        ((ofTasks ["7", "3"]).getFields ["status", "#id"]) = .ok result ∧
      result.rows.Perm [[.string "done", .string "3"], [.string "open", .string "7"]] ∧
      (result.cells 1).map Datum.plain = ["7", "3"] := by
  have hid : ∃ name ∈ ["status", "#id"], name ∈ (ofTasks ["7", "3"]).table.idNames :=
    ⟨"#id", by decide, by decide⟩
  have hrows : (textRows [["done", "3"], ["open", "7"]]).rows =
      .ok [[.string "done", .string "3"], [.string "open", .string "7"]] := rfl
  obtain ⟨column, result, hcolumn, hresult, -, hperm, -, hids⟩ :=
    getFields_gathered (fun _ => .ok (textRows [["done", "3"], ["open", "7"]])) (ofTasks ["7", "3"])
      hid rfl rfl hrows (by decide)
  obtain rfl : 1 = column := Option.some.inj hcolumn
  have hgrouped : ResultSet.Grouped ["7", "3"] := ResultSet.grouped_of_nodup (by decide)
  exact ⟨result, hresult, hperm, (hids (List.Perm.swap "7" "3" [])).2.mpr hgrouped⟩

/-- A task that is asked for before and behind another one: the rows of the reply have the order of
the selection, and those of the result have not. -/
theorem repeated_ids_out_of_order :
    ∃ result, Call.outcome (fun _ => .ok (textRows [["1"], ["2"], ["1"]]))
        ((ofTasks ["1", "2", "1"]).getFields ["id"]) = .ok result ∧
      (result.cells 0).map Datum.plain = ["2", "1", "1"] ∧
      (result.cells 0).map Datum.plain ≠ (ofTasks ["1", "2", "1"]).ids := by
  let read : ResultSet :=
    ⟨["id"], ["task.id"], [[.string "1"], [.string "2"], [.string "1"]], rfl, by decide⟩
  have hcolumn : (ofTasks ["1", "2", "1"]).idColumn?
      (["id"].map (ofTasks ["1", "2", "1"]).table.field) = some 0 := rfl
  have hcells : ((read.orderByIds 0 ["1", "2", "1"]).cells 0).map Datum.plain = ["2", "1", "1"] :=
    read.cells_orderByIds 0 (List.Perm.refl ["1", "2", "1"])
  refine ⟨read.orderByIds 0 ["1", "2", "1"], ?_, hcells, ?_⟩
  · rw [outcome_getFields]
    exact (ofTasks ["1", "2", "1"]).resultOf_eq hcolumn read.width
  · rw [hcells]
    decide

end Selection

end RemoteTable
