import RemoteTable.Proofs.Cache.Views

/-!
# The invariant of a cache

`Cache.Sound` ties the pending cells, the lines of the cells and the stages of the lookups together:
the unfinished lookups attached to a cell without a value are exactly those in its line, and a
pending cell has no value and belongs to a key without a stored value.

Every step changes the stage of at most one lookup and the content of at most one cell
(`Cache.Shift`), after the pending cell of the lookup's key was made (`Cache.prepare`).
`Cache.Fits` says which changes keep the invariant (`Cache.Sound.shift`).
-/

namespace RemoteTable

namespace Cache

variable {κ ν ε : Type} [DecidableEq κ]

/-- The pending cells, the lines of the cells and the stages of the lookups fit together. -/
structure Sound (c : Cache κ ν ε) : Prop where
  /-- A pending cell was made. -/
  mapped_lt : ∀ {key d}, c.pendingCell? key = some d → d < c.cells.length
  /-- A cell is the pending one of one key at most. -/
  mapped_inj : ∀ {key key' d}, c.pendingCell? key = some d → c.pendingCell? key' = some d →
    key = key'
  /-- A pending cell has no value. -/
  mapped_value : ∀ {key d}, c.pendingCell? key = some d → (c.cellAt d).value = none
  /-- A key with a pending cell has no stored value. -/
  mapped_stored : ∀ {key d}, c.pendingCell? key = some d → c.stored.find? key = none
  /-- A lookup that is attached to the pending cell of a key looks for this key. -/
  mapped_key : ∀ {key l d}, c.pendingCell? key = some d → c.AttachedTo l d → c.key? l = some key
  /-- A cell that a lookup is attached to was made. -/
  attached_lt : ∀ {l d}, c.AttachedTo l d → d < c.cells.length
  /-- Every cell is in good order. -/
  inOrder : ∀ d, (c.cellAt d).InOrder
  /-- Who stands in the line of a cell is attached to it. -/
  attached_of_mem_line : ∀ {l d}, l ∈ (c.cellAt d).line → c.AttachedTo l d
  /-- Who is attached to a cell without a value stands in its line. -/
  mem_line_of_attached : ∀ {l d}, c.AttachedTo l d → (c.cellAt d).value = none →
    l ∈ (c.cellAt d).line
  /-- A running initialiser has the turn. -/
  owner_of_running : ∀ {l d}, c.stage? l = some (.running d) → (c.cellAt d).owner = some l

/-! ## Being attached -/

omit [DecidableEq κ] in
/-- A lookup is attached to one cell at most. -/
theorem AttachedTo.unique {c : Cache κ ν ε} {l : LookupId} {d d' : CellId}
    (h : c.AttachedTo l d) (h' : c.AttachedTo l d') : d = d' := by
  rcases h with h | h <;> rcases h' with h' | h' <;> rw [h] at h' <;> simp_all

omit [DecidableEq κ] in
/-- A lookup that was not polled yet uses no cell. -/
theorem not_attachedTo_of_fresh {c : Cache κ ν ε} {l : LookupId} (h : c.stage? l = some .fresh)
    (d : CellId) : ¬ c.AttachedTo l d := by
  rintro (h' | h') <;> rw [h] at h' <;> simp at h'

omit [DecidableEq κ] in
theorem not_attachedTo_of_ended {c : Cache κ ν ε} {l : LookupId} (h : c.stage? l = some .ended)
    (d : CellId) : ¬ c.AttachedTo l d := by
  rintro (h' | h') <;> rw [h] at h' <;> simp at h'

namespace Sound

variable {c : Cache κ ν ε}

/-- The one who has the turn is attached to the cell. -/
theorem attached_of_owner (h : c.Sound) {l : LookupId} {d : CellId}
    (ho : (c.cellAt d).owner = some l) : c.AttachedTo l d := by
  apply h.attached_of_mem_line
  simp [Cell.line, ho]

/-- There is a line only as long as there is no value. -/
theorem value_of_mem_line (h : c.Sound) {l : LookupId} {d : CellId}
    (hl : l ∈ (c.cellAt d).line) : (c.cellAt d).value = none := by
  by_contra hv
  rw [(h.inOrder d).line_nil hv] at hl
  cases hl

/-- There is a turn only as long as there is no value. -/
theorem value_of_owner (h : c.Sound) {l : LookupId} {d : CellId}
    (ho : (c.cellAt d).owner = some l) : (c.cellAt d).value = none := by
  apply h.value_of_mem_line (l := l)
  simp [Cell.line, ho]

/-- The line of a cell is empty exactly if nobody is attached who could still get its turn. -/
theorem line_eq_nil_iff (h : c.Sound) {d : CellId} (hv : (c.cellAt d).value = none) :
    (c.cellAt d).line = [] ↔ ∀ l, ¬ c.AttachedTo l d := by
  rw [List.eq_nil_iff_forall_not_mem]
  constructor
  · intro hl l ha
    exact hl l (h.mem_line_of_attached ha hv)
  · intro hl l hm
    exact hl l (h.attached_of_mem_line hm)

end Sound

/-- The empty cache is sound. -/
theorem sound_empty (eviction : Eviction) : (empty eviction : Cache κ ν ε).Sound where
  mapped_lt h := by cases h
  mapped_inj h := by cases h
  mapped_value h := by cases h
  mapped_stored h := by cases h
  mapped_key h := by cases h
  attached_lt h := by rcases h with h | h <;> cases h
  inOrder _ := Cell.InOrder.empty
  attached_of_mem_line h := by cases h
  mem_line_of_attached h := by rcases h with h | h <;> cases h
  owner_of_running h := by cases h

/-! ## Making the pending cell -/

/-- The cache in which the pending cell that a poll of a lookup needs was made: only a lookup that
has not been polled yet, and whose key has no stored value, needs one. -/
def prepare (c : Cache κ ν ε) (l : LookupId) : Cache κ ν ε :=
  match c.lookups[l]? with
  | some lookup =>
    if lookup.stage = .fresh ∧ c.stored.find? lookup.key = none then (c.attach lookup.key).1 else c
  | none => c

/-- Attaching finds the pending cell of the key or makes it, and changes nothing else. -/
theorem attach_cases (c : Cache κ ν ε) (key : κ) :
    (c.pendingCell? key = some (c.attach key).2 ∧ (c.attach key).1 = c) ∨
      (c.pendingCell? key = none ∧ (c.attach key).2 = c.cells.length ∧
        (c.attach key).1 =
          { c with
            pending := c.pending ++ [(key, c.cells.length)]
            cells := c.cells ++ [Cell.empty] }) := by
  unfold attach
  split
  case h_1 d h => exact Or.inl ⟨h, rfl⟩
  case h_2 h => exact Or.inr ⟨h, rfl, rfl⟩

/-- A cell that attaching makes is empty, and so was the place that it takes. -/
theorem cellAt_attach (c : Cache κ ν ε) (key : κ) : (c.attach key).1.cellAt = c.cellAt := by
  rcases attach_cases c key with ⟨-, h⟩ | ⟨-, -, h⟩
  · rw [h]
  · rw [h]
    funext d
    simp only [cellAt, List.getElem?_append]
    split
    · rfl
    · rename_i hd
      rw [List.getElem?_eq_none (by omega : c.cells.length ≤ d)]
      cases hn : d - c.cells.length <;> simp

/-- Behind attaching the key has a pending cell. -/
theorem pendingCell?_attach (c : Cache κ ν ε) (key : κ) :
    (c.attach key).1.pendingCell? = Function.update c.pendingCell? key (some (c.attach key).2) := by
  rcases attach_cases c key with ⟨hp, h⟩ | ⟨hp, hd, h⟩
  · rw [h, ← hp, Function.update_eq_self]
  · rw [h, hd]
    funext k
    have hnone := Option.map_eq_none_iff.mp hp
    by_cases hk : k = key
    · subst hk
      simp [pendingCell?, List.find?_append, hnone]
    · simp [pendingCell?, List.find?_append, hk, Ne.symm hk]

theorem lookups_attach (c : Cache κ ν ε) (key : κ) : (c.attach key).1.lookups = c.lookups := by
  rcases attach_cases c key with ⟨-, h⟩ | ⟨-, -, h⟩ <;> rw [h]

theorem stored_attach (c : Cache κ ν ε) (key : κ) : (c.attach key).1.stored = c.stored := by
  rcases attach_cases c key with ⟨-, h⟩ | ⟨-, -, h⟩ <;> rw [h]

theorem eviction_attach (c : Cache κ ν ε) (key : κ) :
    (c.attach key).1.eviction = c.eviction := by
  rcases attach_cases c key with ⟨-, h⟩ | ⟨-, -, h⟩ <;> rw [h]

/-- Preparing changes nothing but the pending cell of the lookup's key, and that only if the lookup
has not been polled yet and the key has neither a stored value nor a pending cell. -/
theorem prepare_cases (c : Cache κ ν ε) (l : LookupId) :
    c.prepare l = c ∨
      ∃ key, c.stage? l = some .fresh ∧ c.key? l = some key ∧ c.stored.find? key = none ∧
        c.pendingCell? key = none ∧ (c.attach key).2 = c.cells.length ∧
        c.prepare l = (c.attach key).1 := by
  unfold prepare
  split
  case h_1 lookup hl =>
    split
    case isTrue h =>
      rcases attach_cases c lookup.key with ⟨-, he⟩ | ⟨hp, hd, -⟩
      · exact Or.inl he
      · refine Or.inr ⟨lookup.key, ?_, key?_of_getElem? hl, h.2, hp, hd, rfl⟩
        rw [stage?_of_getElem? hl, h.1]
    case isFalse => exact Or.inl rfl
  case h_2 => exact Or.inl rfl

/-- A lookup that has not been polled and finds no value attaches to its key's cell. -/
theorem prepare_of_fresh {c : Cache κ ν ε} {l : LookupId} {key : κ}
    (hs : c.stage? l = some .fresh) (hk : c.key? l = some key)
    (hn : c.stored.find? key = none) : c.prepare l = (c.attach key).1 := by
  obtain ⟨lookup, hl, hstage⟩ := Option.map_eq_some_iff.mp hs
  rw [key?_of_getElem? hl, Option.some_inj] at hk
  subst hk
  unfold prepare
  rw [hl]
  exact if_pos ⟨hstage, hn⟩

theorem prepare_of_not_fresh {c : Cache κ ν ε} {l : LookupId} (h : c.stage? l ≠ some .fresh) :
    c.prepare l = c := by
  rcases prepare_cases c l with he | ⟨_, hs, -⟩
  · exact he
  · exact absurd hs h

theorem prepare_of_stored {c : Cache κ ν ε} {l : LookupId} {key : κ} {value : ν}
    (hk : c.key? l = some key) (hv : c.stored.find? key = some value) : c.prepare l = c := by
  rcases prepare_cases c l with he | ⟨k, -, hk', hn, -⟩
  · exact he
  · rw [hk, Option.some_inj] at hk'
    subst hk'
    rw [hv] at hn
    cases hn

/-- Preparing concerns the pending cells alone: everything else looks as before. -/
@[simp] theorem lookups_prepare (c : Cache κ ν ε) (l : LookupId) :
    (c.prepare l).lookups = c.lookups := by
  rcases prepare_cases c l with h | ⟨_, -, -, -, -, -, h⟩
  · rw [h]
  · rw [h, lookups_attach]

@[simp] theorem stage?_prepare (c : Cache κ ν ε) (l : LookupId) :
    (c.prepare l).stage? = c.stage? := by
  funext x
  rw [stage?, stage?, lookups_prepare]

@[simp] theorem key?_prepare (c : Cache κ ν ε) (l : LookupId) : (c.prepare l).key? = c.key? := by
  funext x
  rw [key?, key?, lookups_prepare]

@[simp] theorem attachedTo_prepare {c : Cache κ ν ε} {l x : LookupId} {d : CellId} :
    (c.prepare l).AttachedTo x d ↔ c.AttachedTo x d := by
  rw [AttachedTo, AttachedTo, stage?_prepare]

@[simp] theorem cellAt_prepare (c : Cache κ ν ε) (l : LookupId) :
    (c.prepare l).cellAt = c.cellAt := by
  rcases prepare_cases c l with h | ⟨_, -, -, -, -, -, h⟩
  · rw [h]
  · rw [h, cellAt_attach]

@[simp] theorem stored_prepare (c : Cache κ ν ε) (l : LookupId) :
    (c.prepare l).stored = c.stored := by
  rcases prepare_cases c l with h | ⟨_, -, -, -, -, -, h⟩
  · rw [h]
  · rw [h, stored_attach]

@[simp] theorem eviction_prepare (c : Cache κ ν ε) (l : LookupId) :
    (c.prepare l).eviction = c.eviction := by
  rcases prepare_cases c l with h | ⟨_, -, -, -, -, -, h⟩
  · rw [h]
  · rw [h, eviction_attach]

/-- Preparing unmakes no cell. -/
theorem length_cells_prepare_le (c : Cache κ ν ε) (l : LookupId) :
    c.cells.length ≤ (c.prepare l).cells.length := by
  rcases prepare_cases c l with h | ⟨key, -, -, -, -, -, h⟩
  · exact Nat.le_of_eq (by rw [h])
  · rw [h]
    rcases attach_cases c key with ⟨-, h'⟩ | ⟨-, -, h'⟩
    · exact Nat.le_of_eq (by rw [h'])
    · rw [h', List.length_append]
      exact Nat.le_add_right _ _

/-- Preparing forgets no pending cell. -/
theorem pendingCell?_prepare_of_some {c : Cache κ ν ε} {l : LookupId} {key : κ} {d : CellId}
    (h : c.pendingCell? key = some d) : (c.prepare l).pendingCell? key = some d := by
  rcases prepare_cases c l with he | ⟨k, -, -, -, hp, -, he⟩
  · rw [he, h]
  · have hne : key ≠ k := by
      rintro rfl
      rw [h] at hp
      cases hp
    rw [he, pendingCell?_attach, Function.update_of_ne hne, h]

/-- A pending cell that preparing has made is new. -/
theorem pendingCell?_of_prepare {c : Cache κ ν ε} {l : LookupId} {key : κ} {d : CellId}
    (h : (c.prepare l).pendingCell? key = some d) :
    c.pendingCell? key = some d ∨
      (d = c.cells.length ∧ c.stage? l = some .fresh ∧ c.key? l = some key ∧
        c.stored.find? key = none) := by
  rcases prepare_cases c l with he | ⟨k, hs, hk, hn, -, hd, he⟩
  · rw [he] at h
    exact Or.inl h
  · rw [he, pendingCell?_attach, Function.update_apply] at h
    split at h
    · rename_i e
      subst e
      rw [hd, Option.some_inj] at h
      exact Or.inr ⟨h.symm, hs, hk, hn⟩
    · exact Or.inl h

/-- A lookup joins the cell that is the pending one of its key once it was prepared. -/
theorem joins_iff {c : Cache κ ν ε} {l : LookupId} {d : CellId} {key : κ}
    (hs : c.stage? l = some .fresh) (hk : c.key? l = some key) :
    c.Joins l d ↔ c.stored.find? key = none ∧ (c.prepare l).pendingCell? key = some d := by
  unfold Joins
  constructor
  · rintro ⟨-, k, hk', hn, hd⟩
    rw [hk, Option.some_inj] at hk'
    subst hk'
    rw [prepare_of_fresh hs hk hn, pendingCell?_attach, Function.update_self, hd]
    exact ⟨hn, rfl⟩
  · rintro ⟨hn, hd⟩
    rw [prepare_of_fresh hs hk hn, pendingCell?_attach, Function.update_self] at hd
    exact ⟨hs, key, hk, hn, Option.some_inj.mp hd⟩

/-- Preparing keeps the invariant. -/
theorem Sound.prepare {c : Cache κ ν ε} (h : c.Sound) (l : LookupId) : (c.prepare l).Sound := by
  rcases prepare_cases c l with he | ⟨key, -, -, hn, hp, hd, he⟩
  · rw [he]
    exact h
  -- one entry is new, and so is its cell, which nobody can be attached to
  have hlen : (c.prepare l).cells.length = c.cells.length + 1 := by
    rw [he]
    rcases attach_cases c key with ⟨hp', -⟩ | ⟨-, -, h'⟩
    · rw [hp] at hp'
      cases hp'
    · rw [h', List.length_append, List.length_singleton]
  have hpend : ∀ {k e}, (c.prepare l).pendingCell? k = some e →
      (k = key ∧ e = c.cells.length) ∨ (k ≠ key ∧ c.pendingCell? k = some e) := by
    intro k e hk
    rw [he, pendingCell?_attach, hd, Function.update_apply] at hk
    split at hk
    · exact Or.inl ⟨‹_›, (Option.some_inj.mp hk).symm⟩
    · exact Or.inr ⟨‹_›, hk⟩
  constructor
  case mapped_lt =>
    intro k e hk
    rw [hlen]
    rcases hpend hk with ⟨-, rfl⟩ | ⟨-, hk⟩
    · exact Nat.lt_succ_self _
    · exact Nat.lt_succ_of_lt (h.mapped_lt hk)
  case mapped_inj =>
    intro k k' e hk hk'
    rcases hpend hk with ⟨rfl, rfl⟩ | ⟨-, hk⟩ <;> rcases hpend hk' with ⟨rfl, he'⟩ | ⟨-, hk'⟩
    · rfl
    · exact absurd (h.mapped_lt hk') (Nat.lt_irrefl _)
    · rw [he'] at hk
      exact absurd (h.mapped_lt hk) (Nat.lt_irrefl _)
    · exact h.mapped_inj hk hk'
  case mapped_value =>
    intro k e hk
    rw [cellAt_prepare]
    rcases hpend hk with ⟨-, rfl⟩ | ⟨-, hk⟩
    · rw [cellAt_of_length_le (Nat.le_refl _), Cell.value_empty]
    · exact h.mapped_value hk
  case mapped_stored =>
    intro k e hk
    rw [stored_prepare]
    rcases hpend hk with ⟨rfl, -⟩ | ⟨-, hk⟩
    · exact hn
    · exact h.mapped_stored hk
  case mapped_key =>
    intro k x e hk hx
    rw [attachedTo_prepare] at hx
    rw [key?_prepare]
    rcases hpend hk with ⟨-, rfl⟩ | ⟨-, hk⟩
    · exact absurd (h.attached_lt hx) (Nat.lt_irrefl _)
    · exact h.mapped_key hk hx
  -- lines and stages stay as they are
  case attached_lt =>
    intro x e hx
    rw [attachedTo_prepare] at hx
    rw [hlen]
    exact Nat.lt_succ_of_lt (h.attached_lt hx)
  all_goals simp only [cellAt_prepare, attachedTo_prepare, stage?_prepare]
  case inOrder => exact h.inOrder
  case attached_of_mem_line => exact h.attached_of_mem_line
  case mem_line_of_attached => exact h.mem_line_of_attached
  case owner_of_running => exact h.owner_of_running

/-- A key with a pending cell has no stored value, also if the cell was just made. -/
theorem Sound.stored_of_prepare {c : Cache κ ν ε} (h : c.Sound) {l : LookupId} {key : κ}
    {d : CellId} (hm : (c.prepare l).pendingCell? key = some d) : c.stored.find? key = none := by
  rw [← stored_prepare c l]
  exact (h.prepare l).mapped_stored hm

/-- A pending cell has no value, also if it was just made. -/
theorem Sound.value_of_prepare {c : Cache κ ν ε} (h : c.Sound) {l : LookupId} {key : κ}
    {d : CellId} (hm : (c.prepare l).pendingCell? key = some d) : (c.cellAt d).value = none := by
  rw [← cellAt_prepare c l]
  exact (h.prepare l).mapped_value hm

/-! ## Changing one lookup and one cell -/

/-- One lookup changes its stage and one cell its content. -/
structure Shift (c c' : Cache κ ν ε) (l : LookupId) (s : Stage) (d : CellId) (cell : Cell ν) :
    Prop where
  /-- The lookup is in its new stage. -/
  stage : c'.stage? = Function.update c.stage? l (some s)
  /-- All lookups have the keys that they had. -/
  key : c'.key? = c.key?
  /-- The cell has its new content. -/
  cell : c'.cellAt = Function.update c.cellAt d cell
  /-- No cell was made. -/
  length : c'.cells.length = c.cells.length

namespace Shift

variable {c c₁ c' : Cache κ ν ε} {l : LookupId} {s s₁ : Stage} {d : CellId} {cell cell₁ : Cell ν}

omit [DecidableEq κ] in
/-- Of two changes of the same lookup and cell the second one remains. -/
theorem trans (h₁ : Shift c c₁ l s₁ d cell₁) (h : Shift c₁ c' l s d cell) :
    Shift c c' l s d cell where
  stage := by rw [h.stage, h₁.stage, Function.update_idem]
  key := by rw [h.key, h₁.key]
  cell := by rw [h.cell, h₁.cell, Function.update_idem]
  length := by rw [h.length, h₁.length]

omit [DecidableEq κ] in
theorem stage?_self (h : Shift c c' l s d cell) : c'.stage? l = some s := by
  rw [h.stage, Function.update_self]

omit [DecidableEq κ] in
theorem stage?_of_ne (h : Shift c c' l s d cell) {x : LookupId} (hx : x ≠ l) :
    c'.stage? x = c.stage? x := by
  rw [h.stage, Function.update_of_ne hx]

omit [DecidableEq κ] in
theorem attachedTo_of_ne (h : Shift c c' l s d cell) {x : LookupId} (hx : x ≠ l) {e : CellId} :
    c'.AttachedTo x e ↔ c.AttachedTo x e := by
  rw [AttachedTo, AttachedTo, h.stage?_of_ne hx]

omit [DecidableEq κ] in
theorem cellAt_self (h : Shift c c' l s d cell) : c'.cellAt d = cell := by
  rw [h.cell, Function.update_self]

omit [DecidableEq κ] in
theorem cellAt_of_ne (h : Shift c c' l s d cell) {e : CellId} (he : e ≠ d) :
    c'.cellAt e = c.cellAt e := by
  rw [h.cell, Function.update_of_ne he]

end Shift

/-- A stage of a lookup and a content of a cell fit a cache: the lookup uses no other cell and has the
place in the line that its stage calls for, and all others keep theirs. -/
structure Fits (c : Cache κ ν ε) (l : LookupId) (s : Stage) (d : CellId) (cell : Cell ν) : Prop where
  /-- The lookup ends, or it uses the cell, which was made. -/
  stage : s = .ended ∨ (s = .waiting d ∨ s = .running d) ∧ d < c.cells.length
  /-- The lookup was attached to no other cell. -/
  only : ∀ {e}, c.AttachedTo l e → e = d
  /-- If the cell that the lookup uses is the pending one of a key, the lookup looks for this key. -/
  key : s ≠ .ended → ∀ {k}, c.pendingCell? k = some d → c.key? l = some k
  /-- The new content is in good order. -/
  inOrder : cell.InOrder
  /-- A value is not forgotten. -/
  value : cell.value = none → (c.cellAt d).value = none
  /-- The others stay in the line as long as there is no value. -/
  others : ∀ {x}, x ≠ l → (x ∈ cell.line ↔ cell.value = none ∧ x ∈ (c.cellAt d).line)
  /-- The lookup is in the line as long as there is no value and it does not end. -/
  self : l ∈ cell.line ↔ cell.value = none ∧ s ≠ .ended
  /-- A lookup that runs its initialiser has the turn. -/
  running : s = .running d → cell.owner = some l
  /-- Nobody else loses the turn. -/
  owner : ∀ {x}, x ≠ l → (c.cellAt d).owner = some x → cell.owner = some x

namespace Shift

variable {c c' : Cache κ ν ε} {l x : LookupId} {s : Stage} {d e : CellId} {cell : Cell ν}

/-- The changing lookup can only be attached to the changing cell, and is so unless it ends. -/
theorem attachedTo_self_iff (h : Shift c c' l s d cell) (hfits : Fits c l s d cell) :
    c'.AttachedTo l e ↔ e = d ∧ s ≠ .ended := by
  rw [AttachedTo, h.stage?_self]
  rcases hfits.stage with rfl | ⟨rfl | rfl, -⟩ <;> simp [eq_comm]

/-- Who stands in a line after a change that fits is attached to the cell. -/
theorem attached_of_mem_line (h : Shift c c' l s d cell) (hfits : Fits c l s d cell)
    (hsound : c.Sound) (hx : x ∈ (c'.cellAt e).line) : c'.AttachedTo x e := by
  by_cases he : e = d
  · subst he
    rw [h.cellAt_self] at hx
    by_cases hxl : x = l
    · subst hxl
      exact (h.attachedTo_self_iff hfits).mpr ⟨rfl, (hfits.self.mp hx).2⟩
    · rw [h.attachedTo_of_ne hxl]
      exact hsound.attached_of_mem_line ((hfits.others hxl).mp hx).2
  · rw [h.cellAt_of_ne he] at hx
    have hattached := hsound.attached_of_mem_line hx
    have hxl : x ≠ l := by
      rintro rfl
      exact he (hfits.only hattached)
    exact (h.attachedTo_of_ne hxl).mpr hattached

/-- Who is attached to a cell without a value after a change that fits stands in its line. -/
theorem mem_line_of_attached (h : Shift c c' l s d cell) (hfits : Fits c l s d cell)
    (hsound : c.Sound) (hx : c'.AttachedTo x e) (hv : (c'.cellAt e).value = none) :
    x ∈ (c'.cellAt e).line := by
  by_cases hxl : x = l
  · subst hxl
    obtain ⟨rfl, hne⟩ := (h.attachedTo_self_iff hfits).mp hx
    rw [h.cellAt_self] at hv ⊢
    exact hfits.self.mpr ⟨hv, hne⟩
  · rw [h.attachedTo_of_ne hxl] at hx
    by_cases he : e = d
    · subst he
      rw [h.cellAt_self] at hv ⊢
      exact (hfits.others hxl).mpr ⟨hv, hsound.mem_line_of_attached hx (hfits.value hv)⟩
    · rw [h.cellAt_of_ne he] at hv ⊢
      exact hsound.mem_line_of_attached hx hv

/-- Who runs its initialiser after a change that fits has the turn. -/
theorem owner_of_running (h : Shift c c' l s d cell) (hfits : Fits c l s d cell)
    (hsound : c.Sound) (hx : c'.stage? x = some (.running e)) : (c'.cellAt e).owner = some x := by
  by_cases hxl : x = l
  · subst hxl
    obtain ⟨rfl, -⟩ := (h.attachedTo_self_iff hfits).mp (.inr hx)
    rw [h.stage?_self, Option.some_inj] at hx
    rw [h.cellAt_self]
    exact hfits.running hx
  · rw [h.stage?_of_ne hxl] at hx
    have howner := hsound.owner_of_running hx
    by_cases he : e = d
    · subst he
      rw [h.cellAt_self]
      exact hfits.owner hxl howner
    · rw [h.cellAt_of_ne he]
      exact howner

end Shift

/-- A change that fits keeps the invariant, if pending cells are not filled and have no stored
value. -/
theorem Sound.shift {c c' : Cache κ ν ε} {l : LookupId} {s : Stage} {d : CellId} {cell : Cell ν}
    (h : c.Sound) (hsh : Shift c c' l s d cell) (hfits : Fits c l s d cell)
    (hpend : ∀ {k e}, c'.pendingCell? k = some e →
      c.pendingCell? k = some e ∧ (e = d → cell.value = none) ∧ c'.stored.find? k = none) :
    c'.Sound := by
  constructor
  case mapped_lt =>
    intro k e hk
    rw [hsh.length]
    exact h.mapped_lt (hpend hk).1
  case mapped_inj =>
    intro k k' e hk hk'
    exact h.mapped_inj (hpend hk).1 (hpend hk').1
  case mapped_value =>
    intro k e hk
    obtain ⟨hk, hv, -⟩ := hpend hk
    by_cases he : e = d
    · subst he
      rw [hsh.cellAt_self, hv rfl]
    · rw [hsh.cellAt_of_ne he, h.mapped_value hk]
  case mapped_stored =>
    intro k e hk
    exact (hpend hk).2.2
  case mapped_key =>
    intro k x e hk hx
    rw [hsh.key]
    by_cases hxl : x = l
    · subst hxl
      obtain ⟨rfl, hne⟩ := (hsh.attachedTo_self_iff hfits).mp hx
      exact hfits.key hne (hpend hk).1
    · exact h.mapped_key (hpend hk).1 ((hsh.attachedTo_of_ne hxl).mp hx)
  case attached_lt =>
    intro x e hx
    rw [hsh.length]
    by_cases hxl : x = l
    · subst hxl
      obtain ⟨rfl, hne⟩ := (hsh.attachedTo_self_iff hfits).mp hx
      exact (hfits.stage.resolve_left hne).2
    · exact h.attached_lt ((hsh.attachedTo_of_ne hxl).mp hx)
  case inOrder =>
    intro e
    by_cases he : e = d
    · subst he
      rw [hsh.cellAt_self]
      exact hfits.inOrder
    · rw [hsh.cellAt_of_ne he]
      exact h.inOrder e
  case attached_of_mem_line => exact hsh.attached_of_mem_line hfits h
  case mem_line_of_attached => exact hsh.mem_line_of_attached hfits h
  case owner_of_running => exact hsh.owner_of_running hfits h

/-- A lookup that stands in no line ends without a trace. -/
theorem Sound.shift_of_not_mem_line {c c' : Cache κ ν ε} {l : LookupId} {d : CellId}
    (h : c.Sound) (hsh : Shift c c' l .ended d (c.cellAt d)) (hl : ∀ e, c.AttachedTo l e → e = d)
    (hline : l ∉ (c.cellAt d).line) (hpend : c'.pendingCell? = c.pendingCell?)
    (hst : c'.stored.find? = c.stored.find?) : c'.Sound := by
  have hfits : Fits c l .ended d (c.cellAt d) := by
    constructor
    case stage => exact Or.inl rfl
    case only => exact fun ha => hl _ ha
    case key => exact fun hne => absurd rfl hne
    case inOrder => exact h.inOrder d
    case value => exact id
    case others => exact fun _ => ⟨fun hx => ⟨h.value_of_mem_line hx, hx⟩, fun hx => hx.2⟩
    case self => exact ⟨fun hm => absurd hm hline, fun hne => absurd rfl hne.2⟩
    case running => exact fun hs => by cases hs
    case owner => exact fun _ ho => ho
  refine h.shift hsh hfits ?_
  intro k e hk
  rw [hpend] at hk
  refine ⟨hk, ?_, ?_⟩
  · rintro rfl
    exact h.mapped_value hk
  · rw [hst]
    exact h.mapped_stored hk

end Cache

end RemoteTable
