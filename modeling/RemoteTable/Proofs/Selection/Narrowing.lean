import RemoteTable.Proofs.Assignment
import RemoteTable.Proofs.Members
import RemoteTable.Proofs.Response
import RemoteTable.Proofs.Selection.Order

/-!
# Narrowing a selection to one entry

A selection of several records is narrowed by what the server says about their assignment. A record
has the standing (`Selection.Standing`) that the last row with its identifier gives it, and none to
the account's advantage if there is no such row. The entry chosen is the first of the selection after
a stable sort by standing (`Selection.toEntry_narrows`), so it depends on the reply only through the
standings of the selection's records.
-/

namespace RemoteTable

namespace Selection

open ResultSet (rowId)

/-! ## The assignment of an identifier -/

/-- How rows assign a record, from the point of view of an account. -/
inductive Standing (rows : List (List Datum)) (account id : String) : Assignment → Prop
  /-- By the second cell of the last row with the identifier in front. -/
  | listed (before after : List (List Datum)) (row : List Datum) (assigned : Datum)
      (hrows : rows = before ++ row :: after) (hid : rowId 0 row = id)
      (hassigned : row[1]? = some assigned) (hlast : ∀ later ∈ after, rowId 0 later ≠ id) :
      Standing rows account id (Assignment.ofDatum assigned account)
  /-- To nobody, if there is no such row. -/
  | unlisted (hrows : ∀ row ∈ rows, rowId 0 row ≠ id) : Standing rows account id .nobody

variable {rows rows' : List (List Datum)} {id : String}

/-- The program takes the last row of an identifier. -/
theorem assignmentOf_eq (rows : List (List Datum)) (id : String) :
    assignmentOf rows id =
      ((rows.reverse.find? fun row => decide (rowId 0 row = id)).bind fun row => row[1]?).getD
        .null := by
  have hrow : (fun row : List Datum => (row.head?.getD Datum.null).plain == id) =
      fun row => decide (rowId 0 row = id) := by
    funext row
    rw [List.head?_eq_getElem?]
    rfl
  rw [assignmentOf, hrow]

/-- Only the rows of an identifier matter to its assignment. -/
theorem assignmentOf_congr (h : rows.filter (rowId 0 · = id) = rows'.filter (rowId 0 · = id)) :
    assignmentOf rows id = assignmentOf rows' id := by
  rw [assignmentOf_eq, assignmentOf_eq, ← List.head?_filter, ← List.head?_filter,
    List.filter_reverse, List.filter_reverse, h]

/-- The assignment that is found for a record decides its standing, and a record has no other one. -/
theorem standing_iff {account : String} (hwidth : ∀ row ∈ rows, row.length = 2)
    {standing : Assignment} :
    Standing rows account id standing ↔
      standing = Assignment.ofDatum (assignmentOf rows id) account := by
  rw [assignmentOf_eq]
  constructor
  · rintro (⟨before, after, row, assigned, rfl, hid, hassigned, hlast⟩ | hrows)
    · have hfound : (before ++ row :: after).reverse.find? (fun row => decide (rowId 0 row = id)) =
          some row := by
        refine find?_reverse_eq_some_iff.mpr ⟨before, after, rfl, by simpa using hid, ?_⟩
        intro later hlater
        simpa using hlast later hlater
      rw [hfound, Option.bind_some, hassigned]
      rfl
    · have hnone : rows.reverse.find? (fun row => decide (rowId 0 row = id)) = none := by
        rw [List.find?_eq_none]
        intro row hrow
        simpa using hrows row (List.mem_reverse.mp hrow)
      rw [hnone]
      rfl
  · rintro rfl
    cases hfound : rows.reverse.find? fun row => decide (rowId 0 row = id) with
    | none =>
      have hnone : ∀ row ∈ rows, rowId 0 row ≠ id := by
        intro row hrow
        simpa using List.find?_eq_none.mp hfound row (List.mem_reverse.mpr hrow)
      exact .unlisted hnone
    | some row =>
      obtain ⟨before, after, rfl, hid, hafter⟩ := find?_reverse_eq_some_iff.mp hfound
      have hlength : row.length = 2 := hwidth row (by simp)
      have hassigned : row[1]? = some row[1] := List.getElem?_eq_getElem (by omega)
      refine .listed before after row _ rfl (by simpa using hid) ?_ ?_
      · simp [hassigned]
      · intro later hlater
        simpa using hafter later hlater

/-- Where no identifier is repeated, the order of the rows does not matter to the rows of one
identifier. -/
theorem filter_eq_of_perm (hperm : rows.Perm rows') (hnodup : (rows.map (rowId 0)).Nodup)
    (id : String) : rows.filter (rowId 0 · = id) = rows'.filter (rowId 0 · = id) := by
  have hfilter := hperm.filter (rowId 0 · = id)
  -- there is at most one such row
  have hatMost : (rows.filter (rowId 0 · = id)).length ≤ 1 := by
    have hsub : ((rows.filter (rowId 0 · = id)).map (rowId 0)).Nodup :=
      hnodup.sublist (List.filter_sublist.map _)
    have hsame : (rows.filter (rowId 0 · = id)).map (rowId 0) =
        List.replicate (rows.filter (rowId 0 · = id)).length id := by
      rw [List.map_eq_replicate_iff]
      intro row hrow
      simpa using (List.mem_filter.mp hrow).2
    rwa [hsame, List.nodup_replicate] at hsub
  match hrows : rows.filter (rowId 0 · = id), hatMost with
  | [], _ =>
    rw [hrows] at hfilter
    exact hfilter.symm.eq_nil.symm
  | [row], _ =>
    rw [hrows] at hfilter
    exact (List.perm_singleton.mp hfilter.symm).symm

/-- Rows of the same selected records are rows of the same record, if it is selected. -/
theorem filter_eq_of_filter_mem {ids : List String} (hid : id ∈ ids)
    (h : rows.filter (rowId 0 · ∈ ids) = rows'.filter (rowId 0 · ∈ ids)) :
    rows.filter (rowId 0 · = id) = rows'.filter (rowId 0 · = id) := by
  have hselected : ∀ rows : List (List Datum), rows.filter (rowId 0 · = id) =
      (rows.filter (rowId 0 · ∈ ids)).filter (rowId 0 · = id) := by
    intro rows
    rw [List.filter_filter]
    refine List.filter_congr fun row _ => ?_
    by_cases hrow : rowId 0 row = id <;> simp [hrow, hid]
  rw [hselected rows, hselected rows', h]

/-! ## The choice -/

/-- The fields that narrowing asks for. -/
def narrowingFields : List String :=
  ["id", "account_id"]

variable (s : Selection) (account : String)

/-- The entry chosen by the rows of a result set. -/
def choice (result : ResultSet) : Except Error Entry :=
  match (Assignment.bestMatch (s.ids.map (assignmentOf result.rows)) account).bind fun index =>
      s.toEntries[index]? with
  | some entry => .ok entry
  | none => .error (.emptyMatch s.table.name)

/-- The result set that a reply to a read of fields is returned as. -/
def received (names : List String) (reply : Reply) : Except Error ResultSet := do
  let response ← Table.accepted (s.fieldsRequest names) reply
  let rows ← response.rows
  s.resultOf names rows

/-- The entry that a reply leads to. -/
def narrowed (reply : Reply) : Except Error Entry :=
  s.received narrowingFields reply >>= s.choice account

theorem getFields_eq_single (names : List String) :
    s.getFields names = Call.single (s.sentFields names) (s.received names) := by
  have hrest : ∀ response : Response,
      (Call.ofExcept response.rows >>= fun rows => Call.ofExcept (s.resultOf names rows)) =
        Call.ofExcept (response.rows >>= s.resultOf names) := by
    intro response
    cases response.rows <;> rfl
  show s.table.call _ >>= _ = _
  rw [Table.call_eq_single, Call.single_bind hrest]
  rfl

/-- Narrowing several identifiers is one request. -/
theorem guess_eq_single :
    s.guess account = Call.single (s.sentFields narrowingFields) (s.narrowed account) := by
  show s.getFields narrowingFields >>= _ = _
  rw [getFields_eq_single, Call.single_bind (g := s.choice account)]
  · rfl
  · intro result
    unfold choice
    dsimp only
    cases (Assignment.bestMatch (s.ids.map (assignmentOf result.rows)) account).bind fun index =>
      s.toEntries[index]? <;> rfl

/-! ## Narrowing -/

/-- The entry chosen is the one that a stable sort by the standings of the identifiers puts in
front. -/
theorem choice_eq (result : ResultSet) {chosen : String}
    (h : (sortByKey (fun id => Assignment.cellPriority account (assignmentOf result.rows id))
      s.ids).head? = some chosen) : s.choice account result = .ok ⟨s.table, chosen⟩ := by
  have hentry : ∀ index : ℕ, s.toEntries[index]? = s.ids[index]?.map fun id => ⟨s.table, id⟩ := by
    intro index
    exact List.getElem?_map
  rw [← Assignment.bestMatch_map] at h
  unfold choice
  simp only [hentry]
  cases hbest : Assignment.bestMatch (s.ids.map (assignmentOf result.rows)) account with
  | none =>
    rw [hbest] at h
    cases h
  | some index =>
    rw [hbest] at h
    have hid : s.ids[index]? = some chosen := h
    rw [Option.bind_some, hid]
    rfl

/-- A reply with the two cells of every row leads to the entry chosen by the standings that its rows
give. -/
theorem narrowed_eq {response : Response} (h : response.CarriesRows 2 rows) {chosen : String}
    (hchosen : (sortByKey (fun id => Assignment.cellPriority account (assignmentOf rows id))
      s.ids).head? = some chosen) : s.narrowed account (.ok response) = .ok ⟨s.table, chosen⟩ := by
  have hcolumn : s.idColumn? (narrowingFields.map s.table.field) = some 0 := by
    rw [idColumn?_eq]
    rfl
  unfold narrowed received
  rw [Table.accepted_ok _ h.success]
  show (response.rows >>= fun rows => s.resultOf narrowingFields rows) >>= s.choice account = _
  rw [h.rows_eq]
  show s.resultOf narrowingFields rows >>= s.choice account = _
  rw [s.resultOf_eq hcolumn h.width]
  -- the rows of one identifier are in the result set as in the reply
  have hassigned : assignmentOf (ResultSet.orderByIds ⟨narrowingFields,
      narrowingFields.map s.table.field, rows, by simp, h.width⟩ 0 s.ids).rows =
      assignmentOf rows := by
    funext id
    exact assignmentOf_congr (ResultSet.filter_orderByIds _ 0 s.ids id)
  exact s.choice_eq account _ (by rw [hassigned]; exact hchosen)

/-- A selection with an identifier is narrowed to one of its entries. -/
theorem exists_narrowed_eq (hids : s.ids ≠ []) {response : Response}
    (h : response.CarriesRows 2 rows) :
    ∃ chosen, s.narrowed account (.ok response) = .ok ⟨s.table, chosen⟩ ∧
      (sortByKey (fun id => Assignment.cellPriority account (assignmentOf rows id)) s.ids).head? =
        some chosen := by
  cases hhead : (sortByKey (fun id => Assignment.cellPriority account (assignmentOf rows id))
      s.ids).head? with
  | none => exact absurd ((head?_sortByKey_eq_none_iff _).mp hhead) hids
  | some chosen => exact ⟨chosen, s.narrowed_eq account h hhead, rfl⟩

/-- Replies whose rows assign the identifiers of the selection alike lead to the same entry. -/
theorem narrowed_congr (hids : s.ids ≠ []) {response response' : Response}
    (h : response.CarriesRows 2 rows) (h' : response'.CarriesRows 2 rows')
    (hsame : ∀ id ∈ s.ids, rows.filter (rowId 0 · = id) = rows'.filter (rowId 0 · = id)) :
    s.narrowed account (.ok response) = s.narrowed account (.ok response') := by
  obtain ⟨chosen, hchosen, hhead⟩ := s.exists_narrowed_eq account hids h
  have hkeys : ∀ id ∈ s.ids, Assignment.cellPriority account (assignmentOf rows id) =
      Assignment.cellPriority account (assignmentOf rows' id) := by
    intro id hid
    rw [assignmentOf_congr (hsame id hid)]
  rw [sortByKey_congr hkeys] at hhead
  rw [hchosen, s.narrowed_eq account h' hhead]

/-- The request of narrowing asks for the two fields of all identifiers. -/
theorem get?_sentNarrowing :
    (s.sentFields narrowingFields).controller = "c_orm" ∧
      (s.sentFields narrowingFields).method = "get_in_id" ∧
      (s.sentFields narrowingFields).get? "id_array" = some (.ofTexts s.ids) ∧
      (s.sentFields narrowingFields).get? "sign_array" =
        some (.ofTexts (narrowingFields.map s.table.field)) := by
  refine ⟨Table.controller_addressed .., Table.method_addressed .., ?_,
    s.get?_sentFields_signs narrowingFields⟩
  rw [sentFields, Table.get?_addressed _ _ (by decide), Request.get?_param, if_pos rfl]
  rfl

/-- What makes an identifier of a selection the best one for an account, given the rows of a
reply. -/
structure IsBest (s : Selection) (account : String) (rows : List (List Datum)) (chosen : String)
    (standing : String → Assignment) : Prop where
  /-- Every record has one standing. -/
  stands : ∀ id a, Standing rows account id a ↔ a = standing id
  /-- The identifier comes first after a stable sort by the priorities of the standings. -/
  sorted : (sortByKey (fun id => (standing id).priority) s.ids).head? = some chosen
  /-- The identifiers in front of it are worse, and those behind it are not better. -/
  first : ∃ before after, s.ids = before ++ chosen :: after ∧
    (∀ id ∈ before, (standing chosen).priority < (standing id).priority) ∧
    ∀ id ∈ after, (standing chosen).priority ≤ (standing id).priority

/-- The entry that a reply leads to is that of the best identifier. -/
theorem exists_isBest (hids : s.ids ≠ []) {response : Response} (h : response.CarriesRows 2 rows) :
    ∃ chosen standing, s.narrowed account (.ok response) = .ok ⟨s.table, chosen⟩ ∧
      s.IsBest account rows chosen standing := by
  obtain ⟨chosen, hchosen, hsorted⟩ := s.exists_narrowed_eq account hids h
  refine ⟨chosen, fun id => Assignment.ofDatum (assignmentOf rows id) account, hchosen, ?_, hsorted,
    exists_head?_sortByKey _ hsorted⟩
  intro id a
  exact Selection.standing_iff h.width

/-- Narrowing a selection to one entry:

* without an identifier it fails, and with one identifier it gives the entry of this one, and in both
  cases nothing is sent;
* with several identifiers it is one request, for the identifier and the assignment of each;
* a reply with rows of these two cells, or with no rows, leads to the entry of the best identifier;
* rows of records outside the selection do not matter, and neither does the order of the rows if no
  record has two. -/
theorem toEntry_narrows :
    (s.ids = [] → (s.toEntry account).run = .done (.error (.emptyMatch s.table.name))) ∧
    (∀ id, s.ids = [id] → (s.toEntry account).run = .done (.ok ⟨s.table, id⟩)) ∧
    (2 ≤ s.ids.length →
      s.toEntry account = Call.single (s.sentFields narrowingFields) (s.narrowed account) ∧
      (s.sentFields narrowingFields).controller = "c_orm" ∧
      (s.sentFields narrowingFields).method = "get_in_id" ∧
      (s.sentFields narrowingFields).get? "id_array" = some (.ofTexts s.ids) ∧
      (s.sentFields narrowingFields).get? "sign_array" =
        some (.ofTexts (narrowingFields.map s.table.field)) ∧
      (∀ response rows, response.CarriesRows 2 rows →
        ∃ chosen standing, s.narrowed account (.ok response) = .ok ⟨s.table, chosen⟩ ∧
          s.IsBest account rows chosen standing) ∧
      ∀ response response' rows rows', response.CarriesRows 2 rows →
        response'.CarriesRows 2 rows' →
        rows.filter (rowId 0 · ∈ s.ids) = rows'.filter (rowId 0 · ∈ s.ids) ∨
          rows.Perm rows' ∧ (rows.map (rowId 0)).Nodup →
        s.narrowed account (.ok response) = s.narrowed account (.ok response')) := by
  refine ⟨?_, ?_, ?_⟩
  · intro hids
    rw [toEntry, hids]
    rfl
  · intro id hids
    rw [toEntry, hids]
    rfl
  · intro hlength
    have hids : s.ids ≠ [] := by
      rintro hids
      rw [hids] at hlength
      cases hlength
    have hguess : s.toEntry account = s.guess account := by
      match hcase : s.ids, hlength with
      | _ :: _ :: _, _ => rw [toEntry, hcase]
    obtain ⟨hcontroller, hmethod, hidArray, hsigns⟩ := s.get?_sentNarrowing
    refine ⟨hguess.trans (s.guess_eq_single account), hcontroller, hmethod, hidArray, hsigns,
      fun response rows h => s.exists_isBest account hids h, ?_⟩
    intro response response' rows rows' h h' halike
    refine s.narrowed_congr account hids h h' fun id hid => ?_
    rcases halike with hfilter | ⟨hperm, hnodup⟩
    · exact filter_eq_of_filter_mem hid hfilter
    · exact filter_eq_of_perm hperm hnodup id

/-- The rows that answer the narrowing of four identifiers: the first has no row, the second and the
fourth are one record whose last row names nobody, and the last row of the third names the
account. -/
def fiveRows : List (List Datum) :=
  [[.string "9", .string "dave"], [.string "5", .string "carol"], [.string "7", .string "carol"],
    [.number (.integer ⟨9, by decide⟩), .string "bob, carol"], [.string "7", .string " , "]]

/-- The four identifiers are narrowed to the third, also without the row of a record outside the
selection. -/
theorem fourIds_toEntry_narrows :
    let tasks : Selection := ⟨⟨"shot_task", ⟨"db", ⟨none, none⟩⟩, none⟩, ["4", "7", "9", "7"]⟩
    let reply (rows : List (List Datum)) : Response :=
      .ok (.array (rows.map fun row => .array (Datum.toItems row)))
    2 ≤ tasks.ids.length ∧ (reply fiveRows).CarriesRows 2 fiveRows ∧
      tasks.narrowed "carol" (.ok (reply fiveRows)) = .ok ⟨tasks.table, "9"⟩ ∧
      tasks.narrowed "carol" (.ok (reply (fiveRows.eraseIdx 1))) = .ok ⟨tasks.table, "9"⟩ := by
  intro tasks reply
  have hlength : 2 ≤ tasks.ids.length := by decide
  have hreply : (reply fiveRows).CarriesRows 2 fiveRows := ⟨rfl, .inl rfl, by decide⟩
  have hreply' : (reply (fiveRows.eraseIdx 1)).CarriesRows 2 (fiveRows.eraseIdx 1) :=
    ⟨rfl, .inl rfl, by decide⟩
  obtain ⟨-, -, -, -, -, hbest, halike⟩ := (toEntry_narrows tasks "carol").2.2 hlength
  obtain ⟨chosen, standing, hnarrowed, hchosen⟩ := hbest (reply fiveRows) fiveRows hreply
  have hnine : standing "9" = .caller := by
    refine ((hchosen.stands "9" .caller).mp ?_).symm
    exact .listed (fiveRows.take 3) (fiveRows.drop 4) [.number (.integer ⟨9, by decide⟩), _]
      (.string "bob, carol") rfl rfl rfl (by decide)
  have hseven : standing "7" = .nobody := by
    refine ((hchosen.stands "7" .nobody).mp ?_).symm
    exact .listed (fiveRows.take 4) [] [.string "7", _] (.string " , ") rfl rfl rfl (by decide)
  have hfour : standing "4" = .nobody :=
    ((hchosen.stands "4" .nobody).mp (.unlisted (by decide))).symm
  rw [← halike _ _ _ _ hreply hreply' (.inl rfl), hnarrowed]
  -- an identifier of nobody's is not the best, for that of the account is in front of it or behind it
  have hnot : standing chosen ≠ .nobody := by
    intro hnobody
    obtain ⟨before, after, hids, hbefore, hafter⟩ := hchosen.first
    have hmem : "9" ∈ before ++ chosen :: after := hids ▸ (by decide : "9" ∈ tasks.ids)
    rw [hnobody] at hbefore hafter
    rcases List.mem_append.mp hmem with hmem | hmem
    · exact absurd (hbefore "9" hmem) (by rw [hnine]; decide)
    · rcases List.mem_cons.mp hmem with rfl | hmem
      · cases hnine.symm.trans hnobody
      · exact absurd (hafter "9" hmem) (by rw [hnine]; decide)
  have hmem : chosen ∈ tasks.ids := by
    obtain ⟨before, after, hids, -⟩ := hchosen.first
    rw [hids]
    exact List.mem_append_right _ List.mem_cons_self
  have hcases : chosen = "4" ∨ chosen = "7" ∨ chosen = "9" ∨ chosen = "7" := by
    simpa [tasks] using hmem
  have hchosen : chosen = "9" := by
    obtain rfl | rfl | rfl | rfl := hcases
    · exact absurd hfour hnot
    · exact absurd hseven hnot
    · rfl
    · exact absurd hseven hnot
  rw [hchosen]
  exact ⟨hlength, hreply, rfl, rfl⟩

end Selection

end RemoteTable
