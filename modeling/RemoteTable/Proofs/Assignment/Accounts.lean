import Mathlib.Logic.Relation
import Mathlib.Order.Bounds.Defs
import RemoteTable.Proofs.Assignment
import RemoteTable.Proofs.Text.Cuts

/-!
# Accounts of an assignment

A text assigns a record to the accounts that it lists: its items between commas, without the blanks
around them and without the items of blanks only (`Assignment.Lists`). The priority of the record is
determined by these accounts. So items may be reordered, repeated and padded, and blank items come and
go (`Assignment.Edit`), and the priority stays as it is. The best of several records is the first of
those with the least priority (`Assignment.priority_by_accounts`).
-/

namespace RemoteTable

namespace Assignment

/-! ## Items between commas -/

variable {items items' : List (List Char)} {item text text' : List Char}

/-- Some items make up a text, with commas between them. -/
structure MakeUp (items : List (List Char)) (text : List Char) : Prop where
  /-- There is an item, which is empty if the text is. -/
  nonempty : items ≠ []
  /-- No item goes on behind a comma. -/
  whole : ∀ item ∈ items, ',' ∉ item
  /-- There is nothing else in the text. -/
  joined : [','].intercalate items = text

/-- Whether an item stands between the commas of a text. -/
def IsItem (text item : List Char) : Prop :=
  ∃ items, MakeUp items text ∧ item ∈ items

/-- The program's split at commas is the library's. -/
theorem splitCommas_eq_splitOn (cs : List Char) : splitCommas cs = cs.splitOn ',' :=
  eq_splitOn rfl (fun _ _ _ _ h => by rw [splitCommas, h]) cs

/-- Every text is made up of items in one way. -/
theorem makeUp_iff : MakeUp items text ↔ splitCommas text = items := by
  rw [splitCommas_eq_splitOn]
  constructor
  · rintro ⟨hne, hwhole, rfl⟩
    exact List.splitOn_intercalate ',' hwhole hne
  · rintro rfl
    exact ⟨List.splitOn_ne_nil ',' text, fun item => notMem_of_mem_splitOn, List.intercalate_splitOn ','⟩

/-- The items of a text, told by their places between commas, are those of the split. -/
theorem isItem_iff : IsItem text item ↔ item ∈ splitCommas text := by
  simp only [IsItem, makeUp_iff, exists_eq_left']

/-! ## Accounts -/

variable {account : String} {assigned assigned' : Datum}

/-- Whether a text lists an account: it is not empty, and it is an item of the text, possibly with
blanks around it. -/
def Lists (text account : String) : Prop :=
  account ≠ "" ∧ ∃ item, IsItem text.toList item ∧ TrimsTo item account.toList

/-- The accounts of a text are its items without the blanks around them. -/
theorem mem_accounts_iff {text : String} :
    account ∈ accounts text ↔ account ≠ "" ∧ account.toList ∈ (splitCommas text.toList).map trimBlanks := by
  have hname : ∀ part : List Char, String.ofList part = account ↔ part = account.toList := by
    intro part
    rw [← String.toList_inj, String.toList_ofList]
  simp only [accounts, List.mem_map, List.mem_filter, hname]
  constructor
  · rintro ⟨part, ⟨hitem, hpart⟩, rfl⟩
    refine ⟨?_, hitem⟩
    rintro rfl
    simp at hpart
  · rintro ⟨hne, hitem⟩
    refine ⟨account.toList, ⟨hitem, ?_⟩, rfl⟩
    simpa using hne

/-- The program reads exactly the accounts that a text lists. -/
theorem mem_accounts_iff_lists {text : String} : account ∈ accounts text ↔ Lists text account := by
  rw [mem_accounts_iff, List.mem_map]
  simp only [Lists, isItem_iff, trimBlanks_eq_iff]

/-- A text lists no account if and only if its items are blank. -/
theorem accounts_eq_nil_iff {text : String} :
    accounts text = [] ↔ ∀ item, IsItem text.toList item → ∀ c ∈ item, isBlank c = true := by
  simp [accounts, isItem_iff, trimBlanks_eq_nil_iff]

/-! ## Priorities -/

/-- The priority of a cell, told by the accounts that it lists. -/
theorem cellPriority_eq :
    cellPriority account assigned =
      if accounts assigned.plain = [] then 2 else if account ∈ accounts assigned.plain then 0 else 1 := by
  simp only [cellPriority, ofDatum, List.isEmpty_iff, List.contains_iff_mem]
  split
  · rfl
  · split <;> rfl

/-- What each of the three priorities says about the accounts. -/
theorem cellPriority_iff :
    (cellPriority account assigned = 2 ↔ accounts assigned.plain = []) ∧
    (cellPriority account assigned = 0 ↔ account ∈ accounts assigned.plain) ∧
    (cellPriority account assigned = 1 ↔
      accounts assigned.plain ≠ [] ∧ account ∉ accounts assigned.plain) := by
  rw [cellPriority_eq]
  by_cases hnone : accounts assigned.plain = []
  · simp [hnone]
  · by_cases hlisted : account ∈ accounts assigned.plain <;> simp [hnone, hlisted]

/-- Only the accounts matter, and neither their order nor how often they are listed. -/
theorem cellPriority_congr
    (h : ∀ other, other ∈ accounts assigned.plain ↔ other ∈ accounts assigned'.plain) :
    cellPriority account assigned = cellPriority account assigned' := by
  have hnone : accounts assigned.plain = [] ↔ accounts assigned'.plain = [] := by
    simp only [List.eq_nil_iff_forall_not_mem, h]
  rw [cellPriority_eq, cellPriority_eq]
  simp only [hnone, h]

/-! ## Other spellings of a list -/

/-- What may be done to the items of a list; a chain of edits in both directions also undoes it. -/
inductive Edit : List (List Char) → List (List Char) → Prop
  /-- The items come in another order. -/
  | reorder {items items' : List (List Char)} (h : items.Perm items') : Edit items items'
  /-- An item is listed once more. -/
  | again {items : List (List Char)} {item : List Char} (h : item ∈ items) : Edit items (item :: items)
  /-- A blank item is added. -/
  | blank {items : List (List Char)} {item : List Char} (h : ∀ c ∈ item, isBlank c = true) :
      Edit items (item :: items)
  /-- Blanks are put around an item. -/
  | pad {items : List (List Char)} {item front back : List Char} (hfront : ∀ c ∈ front, isBlank c = true)
      (hback : ∀ c ∈ back, isBlank c = true) : Edit (item :: items) ((front ++ item ++ back) :: items)

/-- Blanks hold no comma, so that they can stand around an item. -/
theorem comma_notMem_of_blank {cs : List Char} (h : ∀ c ∈ cs, isBlank c = true) : ',' ∉ cs :=
  fun hmem => absurd (h ',' hmem) (by decide)

/-- Edits bring no comma into an item, and take none away. -/
theorem Edit.whole_iff (h : Edit items items') :
    (∀ item ∈ items, ',' ∉ item) ↔ ∀ item ∈ items', ',' ∉ item := by
  cases h with
  | reorder h => simp only [h.mem_iff]
  | again h =>
    rw [List.forall_mem_cons, iff_and_self]
    exact fun hall => hall _ h
  | blank h =>
    rw [List.forall_mem_cons, iff_and_self]
    exact fun _ => comma_notMem_of_blank h
  | pad hfront hback =>
    rw [List.forall_mem_cons, List.forall_mem_cons]
    simp [comma_notMem_of_blank hfront, comma_notMem_of_blank hback]

/-- Edits change no account. -/
theorem Edit.mem_trimmed_iff (h : Edit items items') {name : List Char} (hname : name ≠ []) :
    name ∈ items.map trimBlanks ↔ name ∈ items'.map trimBlanks := by
  cases h with
  | reorder h => exact (h.map trimBlanks).mem_iff
  | again h =>
    rw [List.map_cons, List.mem_cons, iff_or_self]
    rintro rfl
    exact List.mem_map_of_mem h
  | blank h =>
    rw [List.map_cons, List.mem_cons, trimBlanks_eq_nil_iff.mpr h, or_iff_right hname]
  | pad hfront hback =>
    rw [List.map_cons, List.map_cons, trimBlanks_blanks_around hfront _ hback]

/-- What every edit keeps is kept by a chain of edits in both directions. -/
theorem iff_of_edits (kept : List (List Char) → Prop)
    (hedit : ∀ items items', Edit items items' → (kept items ↔ kept items'))
    (h : Relation.EqvGen Edit items items') : kept items ↔ kept items' := by
  induction h with
  | rel items items' h => exact hedit items items' h
  | refl _ => exact Iff.rfl
  | symm _ _ _ ih => exact ih.symm
  | trans _ _ _ _ _ first second => exact first.trans second

/-- Two texts list the same items up to edits. Without items the text is empty. -/
structure Respells (text text' : List Char) (items items' : List (List Char)) : Prop where
  /-- No item goes on behind a comma. -/
  whole : ∀ item ∈ items, ',' ∉ item
  /-- The one text is made up of the one list. -/
  first : [','].intercalate items = text
  /-- The other text is made up of the other list. -/
  second : [','].intercalate items' = text'
  /-- Edits in both directions lead from list to list. -/
  edits : Relation.EqvGen Edit items items'

/-- The accounts of a text that is written as items with commas between them. -/
theorem mem_accounts_intercalate {text : String} (hwhole : ∀ item ∈ items, ',' ∉ item)
    (htext : [','].intercalate items = text.toList) :
    account ∈ accounts text ↔ account ≠ "" ∧ account.toList ∈ items.map trimBlanks := by
  rw [mem_accounts_iff, and_congr_right_iff]
  intro hne
  by_cases hnil : items = []
  · -- the empty text has one empty item, which is no account
    rw [← htext, hnil]
    have hempty : account.toList ≠ [] := by simpa using hne
    simpa [splitCommas, trimBlanks, trimFront] using hempty
  · rw [makeUp_iff.mp ⟨hnil, hwhole, htext⟩]

/-- Two spellings list the same accounts. -/
theorem Respells.mem_accounts_iff {text text' : String}
    (h : Respells text.toList text'.toList items items') :
    account ∈ accounts text ↔ account ∈ accounts text' := by
  have hwhole : ∀ item ∈ items', ',' ∉ item :=
    (iff_of_edits (fun items => ∀ item ∈ items, ',' ∉ item) (fun _ _ h => h.whole_iff) h.edits).mp h.whole
  rw [mem_accounts_intercalate h.whole h.first, mem_accounts_intercalate hwhole h.second,
    and_congr_right_iff]
  intro hne
  have hname : account.toList ≠ [] := by simpa using hne
  exact iff_of_edits (fun items => account.toList ∈ items.map trimBlanks)
    (fun _ _ h => h.mem_trimmed_iff hname) h.edits

/-! ## The first of the best -/

/-- The places in a list where a key is least. -/
def leastPlaces {α : Type} (key : α → ℕ) (l : List α) : Set ℕ :=
  {index | ∃ a, l[index]? = some a ∧ ∀ b ∈ l, key a ≤ key b}

/-- What a stable sort of a list with its places puts in front has the least of these places. -/
theorem isLeast_of_head?_sortByKey {α : Type} {key : α → ℕ} {l : List α} {a : α} {index : ℕ}
    (h : (sortByKey (fun p => key p.1) l.zipIdx).head? = some (a, index)) :
    IsLeast (leastPlaces key l) index := by
  obtain ⟨before, after, hplaces, hbefore, hafter⟩ := exists_head?_sortByKey _ h
  have hcases : ∀ b place, l[place]? = some b →
      (b, place) ∈ before ∨ (b, place) = (a, index) ∨ (b, place) ∈ after := by
    intro b place hb
    have hmem : (b, place) ∈ l.zipIdx := List.mem_zipIdx_iff_getElem?.mpr hb
    rwa [hplaces, List.mem_append, List.mem_cons] at hmem
  have ha : l[index]? = some a := by
    refine List.mem_zipIdx_iff_getElem?.mp (?_ : (a, index) ∈ l.zipIdx)
    rw [hplaces]
    exact List.mem_append_right _ List.mem_cons_self
  refine ⟨⟨a, ha, fun b hb => ?_⟩, ?_⟩
  · obtain ⟨place, hplace⟩ := List.mem_iff_getElem?.mp hb
    rcases hcases b place hplace with hin | heq | hin
    · exact Nat.le_of_lt (hbefore _ hin)
    · cases heq
      exact Nat.le_refl _
    · exact hafter _ hin
  · rintro place ⟨b, hb, hleast⟩
    rcases hcases b place hb with hin | heq | hin
    · -- what stands in front is greater
      exact absurd (hleast a (List.mem_of_getElem? ha)) (Nat.not_le_of_lt (hbefore _ hin))
    · cases heq
      exact Nat.le_refl _
    · -- what stands behind has a later place
      have hincreasing : (l.zipIdx.map Prod.snd).Pairwise (· < ·) := by
        rw [List.zipIdx_map_snd]
        exact List.pairwise_lt_range' 1
      rw [List.pairwise_map, hplaces] at hincreasing
      have hlater := (List.pairwise_append.mp hincreasing).2.1
      exact Nat.le_of_lt ((List.pairwise_cons.mp hlater).1 _ hin)

variable {assignments : List Datum}

/-- Of some records there is a best one, the first of those with the least priority. -/
theorem exists_bestMatch (account : String) (h : assignments ≠ []) :
    ∃ index, bestMatch assignments account = some index ∧
      IsLeast (leastPlaces (cellPriority account) assignments) index := by
  have hplaces : assignments.zipIdx ≠ [] := by simpa using h
  have hsome := mt (head?_sortByKey_eq_none_iff fun item => cellPriority account item.1).mp hplaces
  obtain ⟨⟨assigned, index⟩, hhead⟩ := Option.ne_none_iff_exists'.mp hsome
  refine ⟨index, ?_, isLeast_of_head?_sortByKey hhead⟩
  rw [bestMatch, bestFrom_eq, hhead]
  rfl

/-! ## Priorities and accounts -/

/-- The priority of a record for an account depends only on the accounts that its assignment lists:

* it is 2 if all items of the assignment are blank, 0 if the account is listed, and 1 otherwise;
* assignments that list the same accounts have the same priority, and so has an assignment in another
  spelling: reordered, with repetitions, with blank items and with blanks around the items, or without
  these;
* for an empty account it is never 0;
* of some records the best is the first of those with the least priority. -/
theorem priority_by_accounts (account : String) :
    (∀ assigned : Datum,
      (cellPriority account assigned = 2 ↔
        ∀ item, IsItem assigned.plain.toList item → ∀ c ∈ item, isBlank c = true) ∧
      (cellPriority account assigned = 0 ↔ Lists assigned.plain account) ∧
      (cellPriority account assigned = 1 ↔
        (∃ item, IsItem assigned.plain.toList item ∧ ∃ c ∈ item, isBlank c = false) ∧
          ¬ Lists assigned.plain account)) ∧
    (∀ assigned assigned' : Datum,
      (∀ other, Lists assigned.plain other ↔ Lists assigned'.plain other) →
        cellPriority account assigned = cellPriority account assigned') ∧
    (∀ (assigned assigned' : Datum) (items items' : List (List Char)),
      Respells assigned.plain.toList assigned'.plain.toList items items' →
        cellPriority account assigned = cellPriority account assigned') ∧
    (∀ assigned : Datum, cellPriority "" assigned ≠ 0) ∧
    bestMatch [] account = none ∧
    ∀ assignments : List Datum, assignments ≠ [] →
      ∃ index, bestMatch assignments account = some index ∧
        IsLeast (leastPlaces (cellPriority account) assignments) index := by
  refine ⟨fun assigned => ⟨?_, ?_, ?_⟩, fun assigned assigned' hlists => ?_,
    fun assigned assigned' items items' h => cellPriority_congr fun other => h.mem_accounts_iff,
    fun assigned => ?_, rfl, fun assignments hne => exists_bestMatch account hne⟩
  · rw [cellPriority_iff.1, accounts_eq_nil_iff]
  · rw [cellPriority_iff.2.1, mem_accounts_iff_lists]
  · rw [cellPriority_iff.2.2, mem_accounts_iff_lists, Ne, accounts_eq_nil_iff]
    simp
  · simp only [← mem_accounts_iff_lists] at hlists
    exact cellPriority_congr hlists
  · rw [Ne, cellPriority_iff.2.1, mem_accounts_iff]
    exact fun h => h.1 rfl

/-- The items of a list in another order, one with a blank in front and one twice, and an empty item. -/
theorem respells_bob_ann :
    Respells (Datum.string "bob,ann").plain.toList (Datum.string " ann,,bob,bob").plain.toList
      [['b', 'o', 'b'], ['a', 'n', 'n']]
      [[' ', 'a', 'n', 'n'], [], ['b', 'o', 'b'], ['b', 'o', 'b']] where
  whole := by decide
  first := by decide
  second := by decide
  edits := by
    have hswap : Edit [['b', 'o', 'b'], ['a', 'n', 'n']] [['a', 'n', 'n'], ['b', 'o', 'b']] :=
      .reorder (.swap ..)
    have hpad : Edit [['a', 'n', 'n'], ['b', 'o', 'b']] [[' ', 'a', 'n', 'n'], ['b', 'o', 'b']] :=
      @Edit.pad [['b', 'o', 'b']] ['a', 'n', 'n'] [' '] [] (List.forall_mem_singleton.mpr rfl)
        (List.forall_mem_nil _)
    have hagain : Edit [[' ', 'a', 'n', 'n'], ['b', 'o', 'b']]
        [['b', 'o', 'b'], [' ', 'a', 'n', 'n'], ['b', 'o', 'b']] := .again (by decide)
    have hblank : Edit [['b', 'o', 'b'], [' ', 'a', 'n', 'n'], ['b', 'o', 'b']]
        [[], ['b', 'o', 'b'], [' ', 'a', 'n', 'n'], ['b', 'o', 'b']] := .blank (List.forall_mem_nil _)
    have hmove : Edit [[], ['b', 'o', 'b'], [' ', 'a', 'n', 'n'], ['b', 'o', 'b']]
        [[' ', 'a', 'n', 'n'], [], ['b', 'o', 'b'], ['b', 'o', 'b']] := .reorder (by decide)
    exact .trans _ _ _ (.rel _ _ hswap) (.trans _ _ _ (.rel _ _ hpad) (.trans _ _ _ (.rel _ _ hagain)
      (.trans _ _ _ (.rel _ _ hblank) (.rel _ _ hmove))))

/-- An account that the list does not name finds it assigned to others in both spellings. Of four records
the third is the best for an account: it is the first that lists it. -/
theorem respelled_priority_by_accounts :
    let listed : List Datum := [.null, .string "bob", .string "cy , ann", .string "ann"]
    Respells (Datum.string "bob,ann").plain.toList (Datum.string " ann,,bob,bob").plain.toList
      [['b', 'o', 'b'], ['a', 'n', 'n']]
      [[' ', 'a', 'n', 'n'], [], ['b', 'o', 'b'], ['b', 'o', 'b']] ∧
    cellPriority "cy" (.string "bob,ann") = 1 ∧ cellPriority "cy" (.string " ann,,bob,bob") = 1 ∧
    listed ≠ [] ∧ IsLeast (leastPlaces (cellPriority "ann") listed) 2 := by
  intro listed
  have hpriority : cellPriority "cy" (.string "bob,ann") = 1 := by decide
  have hne : listed ≠ [] := List.cons_ne_nil _ _
  have hsame := (priority_by_accounts "cy").2.2.1 _ _ _ _ respells_bob_ann
  obtain ⟨index, hbest, hleast⟩ := (priority_by_accounts "ann").2.2.2.2.2 listed hne
  have hthird : bestMatch listed "ann" = some 2 := by decide
  obtain rfl : index = 2 := Option.some.inj (hbest.symm.trans hthird)
  exact ⟨respells_bob_ann, hpriority, hsame ▸ hpriority, hne, hleast⟩

end Assignment

end RemoteTable
