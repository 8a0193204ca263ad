import Mathlib.Data.List.Nodup
import Mathlib.Logic.Function.Basic
import RemoteTable.Cache.Basic

/-!
# Views of a cache

What a step of a cache does is read off four functions: the stage of a lookup (`Cache.stage?`), the
content of a cell (`Cache.cellAt`), the pending cell of a key (`Cache.pendingCell?`) and the stored
value of a key. Each small change of a cache is an update of one of them at one argument.

* `Cell.line` is the line of the lookups that have or await the turn at a cell;
* `Cell.line_leave`, `Cell.line_passTurn` say who is left in it;
* `RecencyList.find?_put_self`, `RecencyList.find?_of_find?_put` say what is kept of stored values.
-/

namespace RemoteTable

/-! ## Cells as lines -/

namespace Cell

variable {ν : Type}

/-- The lookups that have or await the turn, the one that has it in front. -/
def line (cell : Cell ν) : List LookupId :=
  cell.owner.toList ++ cell.waiting

/-- The cell after a lookup has taken its last place. -/
def join (l : LookupId) (cell : Cell ν) : Cell ν :=
  { cell with waiting := cell.waiting ++ [l] }

/-- The cell after a lookup has taken the turn. -/
def take (l : LookupId) (cell : Cell ν) : Cell ν :=
  { cell with owner := some l }

/-- A cell in good order: nobody stands twice in its line, nobody waits for a turn that is free, and
the line has gone home once there is a value. -/
structure InOrder (cell : Cell ν) : Prop where
  /-- Nobody stands twice in the line. -/
  nodup : cell.line.Nodup
  /-- Nobody waits for a turn that is free. -/
  waiting_nil : cell.owner = none → cell.waiting = []
  /-- Nobody stands in line for a value that is there. -/
  line_nil : cell.value ≠ none → cell.line = []

@[simp] theorem line_empty : (Cell.empty : Cell ν).line = [] := rfl

@[simp] theorem value_empty : (Cell.empty : Cell ν).value = none := rfl

/-- With a value the line is dissolved. -/
@[simp] theorem line_fill (value : ν) (cell : Cell ν) : (cell.fill value).line = [] := rfl

@[simp] theorem value_fill (value : ν) (cell : Cell ν) : (cell.fill value).value = some value := rfl

/-- Who joins stands at the end of the line. -/
@[simp] theorem line_join (l : LookupId) (cell : Cell ν) :
    (cell.join l).line = cell.line ++ [l] :=
  (List.append_assoc ..).symm

@[simp] theorem value_join (l : LookupId) (cell : Cell ν) : (cell.join l).value = cell.value := rfl

/-- Who takes the turn stands at the front of the line. -/
@[simp] theorem line_take (l : LookupId) (cell : Cell ν) :
    (cell.take l).line = l :: cell.waiting := rfl

@[simp] theorem waiting_take (l : LookupId) (cell : Cell ν) :
    (cell.take l).waiting = cell.waiting := rfl

/-- Who has the turn already takes it without a change. -/
theorem take_of_owner {l : LookupId} {cell : Cell ν} (h : cell.owner = some l) :
    cell.take l = cell := by
  unfold take
  rw [← h]

@[simp] theorem value_take (l : LookupId) (cell : Cell ν) : (cell.take l).value = cell.value := rfl

/-- The turn is passed on among those who wait; the value is no matter of it. -/
@[simp] theorem value_passTurn (cell : Cell ν) : cell.passTurn.value = cell.value := rfl

/-- When the turn is passed on, those who waited are the line. -/
@[simp] theorem line_passTurn (cell : Cell ν) : cell.passTurn.line = cell.waiting := by
  unfold line passTurn
  cases cell.waiting with
  | nil => rfl
  | cons l ls => rfl

@[simp] theorem value_leave (l : LookupId) (cell : Cell ν) : (cell.leave l).value = cell.value := by
  unfold leave
  split <;> rfl

/-- A lookup that leaves is taken out of the line, wherever it stands. -/
theorem line_leave (l : LookupId) (cell : Cell ν) : (cell.leave l).line = cell.line.erase l := by
  unfold leave
  split
  case isTrue h =>
    rw [line_passTurn, line, h, Option.toList_some, List.singleton_append, List.erase_cons_head]
  case isFalse h =>
    cases ho : cell.owner with
    | none => simp [line, ho]
    | some o =>
      have hne : o ≠ l := fun e => h (by rw [ho, e])
      simp [line, ho, List.erase_cons_tail, hne]

/-- The others at a cell keep the turn if they have it when a lookup leaves. -/
theorem owner_leave_of_ne {cell : Cell ν} {l x : LookupId} (hx : x ≠ l)
    (ho : cell.owner = some x) : (cell.leave l).owner = some x := by
  unfold leave
  rw [if_neg (by rw [ho, Option.some_inj]; exact hx)]
  exact ho

/-- A cell is deserted if it has no value and nobody stands in its line. -/
theorem isDeserted_iff (cell : Cell ν) :
    cell.isDeserted = true ↔ cell.value = none ∧ cell.line = [] := by
  cases ho : cell.owner <;> simp [isDeserted, line, ho]

namespace InOrder

variable {cell : Cell ν}

/-- The turn belongs to the head of the line. -/
theorem head?_line (h : cell.InOrder) : cell.line.head? = cell.owner := by
  cases ho : cell.owner with
  | none => simp [line, ho, h.waiting_nil ho]
  | some o => simp [line, ho]

/-- An empty cell has no line. -/
theorem empty : (Cell.empty : Cell ν).InOrder :=
  ⟨List.nodup_nil, fun _ => rfl, fun _ => rfl⟩

theorem fill (value : ν) (cell : Cell ν) : (cell.fill value).InOrder :=
  ⟨List.nodup_nil, fun _ => rfl, fun _ => rfl⟩

/-- One more lookup may wait for a turn that is taken. -/
theorem join {l : LookupId} (h : cell.InOrder) (hl : l ∉ cell.line) (ho : cell.owner ≠ none) :
    (cell.join l).InOrder where
  nodup := by
    rw [line_join, ← List.concat_eq_append]
    exact h.nodup.concat hl
  waiting_nil := fun hno => absurd hno ho
  line_nil := by
    intro hv
    have hline := h.line_nil hv
    rw [← h.head?_line, hline] at ho
    exact absurd rfl ho

/-- A lookup that does not wait may take the turn of a cell without a value. -/
theorem take {l : LookupId} (h : cell.InOrder) (hl : l ∉ cell.waiting) (hv : cell.value = none) :
    (cell.take l).InOrder where
  nodup := by
    rw [line_take]
    exact List.nodup_cons.mpr ⟨hl, h.nodup.of_append_right⟩
  waiting_nil := by
    intro hno
    cases hno
  line_nil := fun hne => absurd hv hne

/-- The first one who waits gets the turn, and the order of the others stays. -/
theorem passTurn (h : cell.InOrder) : cell.passTurn.InOrder where
  nodup := by
    rw [line_passTurn]
    exact h.nodup.of_append_right
  waiting_nil := by
    intro ho
    have hw : cell.waiting = [] := List.head?_eq_none_iff.mp ho
    simp [Cell.passTurn, hw]
  line_nil := by
    intro hv
    rw [line_passTurn]
    exact (List.append_eq_nil_iff.mp (h.line_nil hv)).2

/-- Who leaves leaves the order of the others. -/
theorem leave (l : LookupId) (h : cell.InOrder) : (cell.leave l).InOrder where
  nodup := by
    rw [line_leave]
    exact h.nodup.erase l
  waiting_nil := by
    unfold Cell.leave
    split
    · exact h.passTurn.waiting_nil
    · intro ho
      simp [h.waiting_nil ho]
  line_nil := by
    intro hv
    rw [value_leave] at hv
    rw [line_leave, h.line_nil hv, List.erase_nil]

end InOrder

end Cell

/-! ## Stored values -/

namespace RecencyList

variable {κ ν : Type} [DecidableEq κ]

@[simp] theorem find?_nil (k : κ) : find? ([] : RecencyList κ ν) k = none := rfl

/-- The first value of a key is the one that counts. -/
theorem find?_cons (entries : RecencyList κ ν) (key k : κ) (value : ν) :
    find? ((key, value) :: entries) k = if key = k then some value else entries.find? k := by
  by_cases h : key = k <;> simp [find?, h]

/-- Without a key there is no value for it, and the other keys keep theirs. -/
theorem find?_erase (entries : RecencyList κ ν) (key : κ) :
    (entries.erase key).find? = Function.update entries.find? key none := by
  funext k
  induction entries with
  | nil => by_cases h : k = key <;> simp [erase, h]
  | cons entry rest ih =>
    obtain ⟨other, value⟩ := entry
    rw [Function.update_apply] at ih ⊢
    by_cases ho : other = key
    · have herase : erase ((other, value) :: rest) key = erase rest key := by simp [erase, ho]
      rw [herase, ih, find?_cons]
      by_cases hk : k = key
      · simp [hk]
      · simp [hk, ho, Ne.symm hk]
    · have herase : erase ((other, value) :: rest) key = (other, value) :: erase rest key := by
        simp [erase, ho]
      rw [herase, find?_cons, find?_cons, ih]
      by_cases hk : k = key
      · simp [hk, ho]
      · simp [hk]

/-- A use of a key changes no key's value. -/
@[simp] theorem find?_touch (entries : RecencyList κ ν) (key : κ) :
    (entries.touch key).find? = entries.find? := by
  unfold touch
  split
  case h_1 value hv =>
    funext k
    rw [find?_cons, find?_erase, Function.update_apply]
    by_cases hk : k = key
    · simp [hk, hv]
    · simp [hk, Ne.symm hk]
  case h_2 => rfl

/-- Of a list that is cut at the end, every key that is left has its value. -/
theorem find?_of_find?_take {entries : RecencyList κ ν} {n : ℕ} {k : κ} {value : ν}
    (h : find? (entries.take n) k = some value) : entries.find? k = some value := by
  unfold find? at h ⊢
  obtain ⟨entry, hentry, rfl⟩ := Option.map_eq_some_iff.mp h
  rw [(List.take_prefix n entries).find?_eq_some hentry, Option.map_some]

/-- A value that was just put is there: there is room for one key at least. -/
theorem find?_put_self (eviction : Eviction) (entries : RecencyList κ ν) (key : κ) (value : ν) :
    (entries.put eviction key value).find? key = some value := by
  unfold put
  cases eviction with
  | never => simp [Eviction.capacity?, find?_cons]
  | leastRecent capacity =>
    obtain ⟨n, hn⟩ : ∃ n, max capacity 1 = n + 1 := ⟨max capacity 1 - 1, by omega⟩
    simp [Eviction.capacity?, hn, find?_cons]

/-- What is stored of another key after a value was put was stored before. -/
theorem find?_of_find?_put {eviction : Eviction} {entries : RecencyList κ ν} {key k : κ}
    {value other : ν} (hne : k ≠ key)
    (h : (entries.put eviction key value).find? k = some other) :
    entries.find? k = some other := by
  have hgrown : find? ((key, value) :: entries.erase key) k = some other := by
    unfold put at h
    cases eviction with
    | never => exact h
    | leastRecent capacity => exact find?_of_find?_take h
  rw [find?_cons, if_neg (Ne.symm hne), find?_erase, Function.update_of_ne hne] at hgrown
  exact hgrown

/-- Where nothing is dropped, a put changes what is stored of its key only. -/
theorem find?_put_never (entries : RecencyList κ ν) (key : κ) (value : ν) :
    (entries.put .never key value).find? = Function.update entries.find? key (some value) := by
  funext k
  show find? ((key, value) :: entries.erase key) k = _
  rw [find?_cons, find?_erase, Function.update_apply, Function.update_apply]
  by_cases h : key = k
  · rw [if_pos h, if_pos h.symm]
  · rw [if_neg h, if_neg (Ne.symm h), if_neg (Ne.symm h)]

end RecencyList

/-! ## Views -/

namespace Cache

variable {κ ν ε : Type}

/-- How far a lookup has come, if it was started. -/
def stage? (c : Cache κ ν ε) (l : LookupId) : Option Stage :=
  c.lookups[l]?.map Lookup.stage

/-- The key of a lookup, if it was started. -/
def key? (c : Cache κ ν ε) (l : LookupId) : Option κ :=
  c.lookups[l]?.map Lookup.key

/-- The content of a cell; a cell that was not made yet is empty. -/
def cellAt (c : Cache κ ν ε) (d : CellId) : Cell ν :=
  c.cells[d]?.getD Cell.empty

/-- An unfinished lookup is attached to the cell that it waits at or runs its initialiser for. -/
def AttachedTo (c : Cache κ ν ε) (l : LookupId) (d : CellId) : Prop :=
  c.stage? l = some (.waiting d) ∨ c.stage? l = some (.running d)

instance (c : Cache κ ν ε) (l : LookupId) (d : CellId) : Decidable (c.AttachedTo l d) :=
  inferInstanceAs (Decidable (_ ∨ _))

/-- The first poll of a lookup attaches it to a cell: its key has no stored value, and the cell is
the pending one of the key, made if there was none. -/
def Joins [DecidableEq κ] (c : Cache κ ν ε) (l : LookupId) (d : CellId) : Prop :=
  c.stage? l = some .fresh ∧
    ∃ key, c.key? l = some key ∧ c.stored.find? key = none ∧ (c.attach key).2 = d

/-- The stage of a lookup that was started. -/
theorem stage?_of_getElem? {c : Cache κ ν ε} {l : LookupId} {lookup : Lookup κ ν ε}
    (h : c.lookups[l]? = some lookup) : c.stage? l = some lookup.stage := by
  rw [stage?, h, Option.map_some]

theorem key?_of_getElem? {c : Cache κ ν ε} {l : LookupId} {lookup : Lookup κ ν ε}
    (h : c.lookups[l]? = some lookup) : c.key? l = some lookup.key := by
  rw [key?, h, Option.map_some]

/-- A cell that was not made counts as empty. -/
theorem cellAt_of_length_le {c : Cache κ ν ε} {d : CellId} (h : c.cells.length ≤ d) :
    c.cellAt d = Cell.empty := by
  rw [cellAt, List.getElem?_eq_none h, Option.getD_none]

theorem getElem?_cells {c : Cache κ ν ε} {d : CellId} (h : d < c.cells.length) :
    c.cells[d]? = some (c.cellAt d) := by
  rw [cellAt, List.getElem?_eq_getElem h, Option.getD_some]

/-! ## Small changes through the views -/

/-- A new stage is that of one lookup. -/
theorem stage?_setStage {c : Cache κ ν ε} {l : LookupId} {lookup : Lookup κ ν ε}
    (h : c.lookups[l]? = some lookup) (s : Stage) :
    (c.setStage l s).stage? = Function.update c.stage? l (some s) := by
  funext x
  by_cases hx : x = l
  · simp [stage?, setStage, hx, h]
  · simp [stage?, setStage, hx, Ne.symm hx]

theorem key?_setStage (c : Cache κ ν ε) (l : LookupId) (s : Stage) :
    (c.setStage l s).key? = c.key? := by
  funext x
  by_cases hx : l = x
  · cases h : c.lookups[x]? <;> simp [key?, setStage, hx, h]
  · simp [key?, setStage, hx]

theorem cellAt_modifyCell {c : Cache κ ν ε} {d : CellId} (h : d < c.cells.length)
    (change : Cell ν → Cell ν) :
    (c.modifyCell d change).cellAt = Function.update c.cellAt d (change (c.cellAt d)) := by
  funext x
  by_cases hx : x = d
  · simp [cellAt, modifyCell, hx, h]
  · simp [cellAt, modifyCell, hx, Ne.symm hx]

theorem pendingCell?_removePending [DecidableEq κ] (c : Cache κ ν ε) (key : κ) :
    (c.removePending key).pendingCell? = Function.update c.pendingCell? key none :=
  RecencyList.find?_erase c.pending key

end Cache

end RemoteTable
