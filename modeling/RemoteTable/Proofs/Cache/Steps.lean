import RemoteTable.Proofs.Cache.Invariant

/-!
# What the polls of a cache do

`Cache.Polled` lists the ways in which a poll can go, each with all that it changes. In a sound
cache every poll goes in one of them (`Cache.Sound.polled`), and each of them keeps the invariant
(`Cache.Polled.sound`). What the cases have in common is that a lookup has the turn
(`Cache.Turn`).
-/

namespace RemoteTable

namespace Cache

variable {κ ν ε : Type} [DecidableEq κ]

/-! ## The ways in which a poll can go -/

/-- A lookup has the turn at a cell during a poll, which shows whether its initialiser begins. -/
inductive Turn (c : Cache κ ν ε) (l : LookupId) (d : CellId) : List (CacheEvent ν ε) → Prop where
  /-- The lookup comes to a cell whose turn is free, and takes it. -/
  | taken {key : κ} : c.stage? l = some .fresh → c.key? l = some key →
    c.stored.find? key = none → (c.prepare l).pendingCell? key = some d →
    (c.cellAt d).owner = none → Turn c l d [.began l]
  /-- The lookup has waited and was handed the turn. -/
  | handed : c.stage? l = some (.waiting d) → (c.cellAt d).owner = some l → Turn c l d [.began l]
  /-- The initialiser of the lookup has been running. -/
  | kept : c.stage? l = some (.running d) → Turn c l d []

/-- The ways in which a poll of a lookup can go. -/
inductive Polled (c : Cache κ ν ε) (l : LookupId) :
    List (CacheEvent ν ε) → Cache κ ν ε → Prop where
  /-- Nothing happens. -/
  | idle : c.stage? l ≠ some .fresh →
    (∀ d, c.stage? l = some (.waiting d) →
      (c.cellAt d).value = none ∧ (c.cellAt d).owner ≠ some l) →
    Polled c l [] c
  /-- A stored value answers the lookup. -/
  | hit {key : κ} {value : ν} {c' : Cache κ ν ε} : c.stage? l = some .fresh →
    c.key? l = some key → c.stored.find? key = some value →
    Shift c c' l .ended 0 (c.cellAt 0) → c'.pendingCell? = c.pendingCell? →
    c'.stored = c.stored.touch key → Polled c l [.returned l (.ok value)] c'
  /-- The lookup comes to a cell whose turn is taken, and waits. -/
  | wait {key : κ} {d : CellId} {c' : Cache κ ν ε} : c.stage? l = some .fresh →
    c.key? l = some key → c.stored.find? key = none →
    (c.prepare l).pendingCell? key = some d → (c.cellAt d).owner ≠ none →
    Shift (c.prepare l) c' l (.waiting d) d ((c.cellAt d).join l) →
    c'.pendingCell? = (c.prepare l).pendingCell? → c'.stored = c.stored → Polled c l [] c'
  /-- The lookup has waited and is given the value of its cell. -/
  | receive {key : κ} {d : CellId} {value : ν} {c' : Cache κ ν ε} :
    c.stage? l = some (.waiting d) → c.key? l = some key → (c.cellAt d).value = some value →
    Shift c c' l .ended d (c.cellAt d) → c'.pendingCell? = c.pendingCell? →
    c'.stored = c.stored → Polled c l [.returned l (.ok value)] c'
  /-- The initialiser begins and goes on. -/
  | begin {d : CellId} {c' : Cache κ ν ε} : Turn c l d [.began l] →
    Shift (c.prepare l) c' l (.running d) d ((c.cellAt d).take l) →
    c'.pendingCell? = (c.prepare l).pendingCell? → c'.stored = c.stored →
    Polled c l [.began l] c'
  /-- The initialiser succeeds, and its value is stored. -/
  | store {shown : List (CacheEvent ν ε)} {key : κ} {d : CellId} {value : ν}
    {c' : Cache κ ν ε} : Turn c l d shown → c.key? l = some key →
    (c.prepare l).pendingCell? key = some d →
    Shift (c.prepare l) c' l .ended d ((c.cellAt d).fill value) →
    c'.pendingCell? = Function.update (c.prepare l).pendingCell? key none →
    c'.stored = c.stored.put c.eviction key value →
    Polled c l (shown ++ [.returned l (.ok value)]) c'
  /-- The initialiser succeeds for a cell that is not the pending one any more. -/
  | orphan {shown : List (CacheEvent ν ε)} {key : κ} {d : CellId} {value : ν}
    {c' : Cache κ ν ε} : Turn c l d shown → c.key? l = some key →
    (c.prepare l).pendingCell? key ≠ some d →
    Shift (c.prepare l) c' l .ended d ((c.cellAt d).fill value) →
    c'.pendingCell? = (c.prepare l).pendingCell? → c'.stored = c.stored →
    Polled c l (shown ++ [.returned l (.ok value)]) c'
  /-- The initialiser fails, nobody else is attached to the pending cell, and it is forgotten. -/
  | forget {shown : List (CacheEvent ν ε)} {key : κ} {d : CellId} {error : ε}
    {c' : Cache κ ν ε} : Turn c l d shown → c.key? l = some key →
    (c.prepare l).pendingCell? key = some d → (c.cellAt d).waiting = [] →
    Shift (c.prepare l) c' l .ended d (c.cellAt d).passTurn →
    c'.pendingCell? = Function.update (c.prepare l).pendingCell? key none →
    c'.stored = c.stored → Polled c l (shown ++ [.returned l (.error error)]) c'
  /-- The initialiser fails, and the pending cells stay as they are. -/
  | fail {shown : List (CacheEvent ν ε)} {key : κ} {d : CellId} {error : ε}
    {c' : Cache κ ν ε} : Turn c l d shown → c.key? l = some key →
    ((c.prepare l).pendingCell? key = some d → (c.cellAt d).waiting ≠ []) →
    Shift (c.prepare l) c' l .ended d (c.cellAt d).passTurn →
    c'.pendingCell? = (c.prepare l).pendingCell? → c'.stored = c.stored →
    Polled c l (shown ++ [.returned l (.error error)]) c'

/-! ## Going through a poll -/

omit [DecidableEq κ] in
theorem shift_setStage {c : Cache κ ν ε} {l : LookupId} {lookup : Lookup κ ν ε}
    (h : c.lookups[l]? = some lookup) (s : Stage) (d : CellId) :
    Shift c (c.setStage l s) l s d (c.cellAt d) where
  stage := stage?_setStage h s
  key := key?_setStage c l s
  cell := by
    rw [Function.update_eq_self]
    rfl
  length := rfl

omit [DecidableEq κ] in
/-- A new content and a new stage are a change of one lookup and one cell. -/
theorem shift_modifyCell_setStage {c : Cache κ ν ε} {l : LookupId} {lookup : Lookup κ ν ε}
    {d : CellId} (h : c.lookups[l]? = some lookup) (hd : d < c.cells.length)
    (change : Cell ν → Cell ν) (s : Stage) :
    Shift c ((c.modifyCell d change).setStage l s) l s d (change (c.cellAt d)) where
  stage := stage?_setStage (c := c.modifyCell d change) h s
  key := key?_setStage (c.modifyCell d change) l s
  cell := cellAt_modifyCell hd change
  length := List.length_modify ..

/-- A value that is returned from the pending cell of a key is stored in its place. -/
theorem returnValue_of_mapped {c : Cache κ ν ε} {l : LookupId} {key : κ} {d : CellId} {value : ν}
    (h : c.pendingCell? key = some d) :
    c.returnValue l key d value =
      ({ (c.setStage l .ended).removePending key with
          stored := c.stored.put c.eviction key value },
        [.returned l (.ok value)]) := by
  dsimp only [returnValue]
  rw [if_pos (show (c.setStage l .ended).pendingCell? key = some d from h)]
  rfl

/-- A value for a cell that is not the pending one any more is returned, but not stored. -/
theorem returnValue_of_not_mapped {c : Cache κ ν ε} {l : LookupId} {key : κ} {d : CellId}
    {value : ν} (h : c.pendingCell? key ≠ some d) :
    c.returnValue l key d value = (c.setStage l .ended, [.returned l (.ok value)]) := by
  dsimp only [returnValue]
  rw [if_neg (show (c.setStage l .ended).pendingCell? key ≠ some d from h)]

/-- A failure passes the turn on, and forgets the pending cell that nobody else is attached to. -/
theorem returnError_eq {c : Cache κ ν ε} {l : LookupId} {key : κ} {d : CellId} {error : ε}
    (hd : d < c.cells.length) (hv : (c.cellAt d).value = none) :
    c.returnError l key d error =
      (if c.pendingCell? key = some d ∧ (c.cellAt d).waiting = [] then
          ((c.modifyCell d Cell.passTurn).setStage l .ended).removePending key
        else (c.modifyCell d Cell.passTurn).setStage l .ended,
        [.returned l (.error error)]) := by
  have hcell : ((c.modifyCell d Cell.passTurn).setStage l .ended).cells[d]? =
      some (c.cellAt d).passTurn := by
    have hlt : d < (c.modifyCell d Cell.passTurn).cells.length := by
      rw [modifyCell, List.length_modify]
      exact hd
    rw [← Function.update_self d (c.cellAt d).passTurn c.cellAt, ← cellAt_modifyCell hd]
    exact getElem?_cells hlt
  have hdes : (c.cellAt d).passTurn.isDeserted = true ↔ (c.cellAt d).waiting = [] := by
    rw [Cell.isDeserted_iff, Cell.line_passTurn, Cell.value_passTurn]
    exact and_iff_right hv
  show (if c.pendingCell? key = some d ∧
      ((((c.modifyCell d Cell.passTurn).setStage l .ended).cells[d]?.map
        Cell.isDeserted).getD false) = true then _ else _, _) = _
  rw [hcell, Option.map_some, Option.getD_some]
  simp only [hdes]
  rfl

/-- Once a lookup has the turn, the decision about its initialiser says how the poll goes on. -/
theorem Turn.polled {c c₁ : Cache κ ν ε} {l : LookupId} {d : CellId}
    {shown : List (CacheEvent ν ε)} {lookup lookup₁ : Lookup κ ν ε} (ht : Turn c l d shown)
    (hl : c₁.lookups[l]? = some lookup₁) (hk : c.key? l = some lookup.key)
    (hd : d < c₁.cells.length) (hv : (c.cellAt d).value = none)
    (hsh : Shift (c.prepare l) c₁ l (.running d) d ((c.cellAt d).take l))
    (hp : c₁.pendingCell? = (c.prepare l).pendingCell?) (hst : c₁.stored = c.stored)
    (hev : c₁.eviction = c.eviction) :
    (lookup.gate = none ∧ c₁.continueRunning l lookup d = (c₁, [])) ∨
      Polled c l (shown ++ (c₁.continueRunning l lookup d).2)
        (c₁.continueRunning l lookup d).1 := by
  unfold continueRunning
  cases lookup.gate with
  | none => exact Or.inl ⟨rfl, rfl⟩
  | some outcome =>
    right
    have hcell := hsh.cellAt_self
    cases outcome with
    | ok value =>
      -- the value is filled in before the lookup returns
      have hfill := hsh.trans (shift_modifyCell_setStage hl hd (Cell.fill value) .ended)
      by_cases hmap : (c.prepare l).pendingCell? lookup.key = some d
      · have hmap₁ : (c₁.modifyCell d (Cell.fill value)).pendingCell? lookup.key = some d := by
          rw [← hmap, ← hp]
          rfl
        simp only [returnValue_of_mapped hmap₁]
        refine Polled.store ht hk hmap ⟨hfill.stage, hfill.key, hfill.cell, hfill.length⟩ ?_ ?_
        · rw [← hp]
          exact pendingCell?_removePending c₁ lookup.key
        · rw [← hst, ← hev]
          rfl
      · have hmap₁ : (c₁.modifyCell d (Cell.fill value)).pendingCell? lookup.key ≠ some d := by
          intro h
          apply hmap
          rw [← h, ← hp]
          rfl
        simp only [returnValue_of_not_mapped hmap₁]
        exact Polled.orphan ht hk hmap ⟨hfill.stage, hfill.key, hfill.cell, hfill.length⟩ hp hst
    | error error =>
      -- whether the cell is deserted is seen after the turn was passed on
      have hpass := hsh.trans (shift_modifyCell_setStage hl hd Cell.passTurn .ended)
      rw [hcell] at hpass
      have hv₁ : (c₁.cellAt d).value = none := by rw [hcell, Cell.value_take, hv]
      have hw₁ : (c₁.cellAt d).waiting = (c.cellAt d).waiting := by rw [hcell, Cell.waiting_take]
      simp only [returnError_eq hd hv₁, hw₁, hp]
      split
      case isTrue h =>
        refine Polled.forget ht hk h.1 h.2 ⟨hpass.stage, hpass.key, hpass.cell, hpass.length⟩ ?_ hst
        rw [← hp]
        exact pendingCell?_removePending c₁ lookup.key
      case isFalse h =>
        exact Polled.fail ht hk (fun hm hw => h ⟨hm, hw⟩) hpass hp hst

/-- A lookup that has just got the turn begins to run its initialiser. -/
theorem Turn.polled_begin {c c₁ : Cache κ ν ε} {l : LookupId} {d : CellId}
    {lookup lookup₁ : Lookup κ ν ε} (ht : Turn c l d [.began l])
    (hl : c₁.lookups[l]? = some lookup₁) (hk : c.key? l = some lookup.key)
    (hd : d < c₁.cells.length) (hv : (c.cellAt d).value = none)
    (hsh : Shift (c.prepare l) (c₁.setStage l (.running d)) l (.running d) d
      ((c.cellAt d).take l))
    (hp : c₁.pendingCell? = (c.prepare l).pendingCell?) (hst : c₁.stored = c.stored)
    (hev : c₁.eviction = c.eviction) :
    Polled c l (c₁.beginRunning l lookup d).2 (c₁.beginRunning l lookup d).1 := by
  have hl' : (c₁.setStage l (.running d)).lookups[l]? =
      some { lookup₁ with stage := .running d } := by
    simp [setStage, hl]
  rcases ht.polled hl' hk hd hv hsh hp hst hev with ⟨-, he⟩ | h
  · unfold beginRunning
    rw [he]
    exact Polled.begin ht hsh hp hst
  · exact h

namespace Sound

variable {c : Cache κ ν ε} {l : LookupId} {lookup : Lookup κ ν ε} {d : CellId}

/-- The poll of a lookup that runs its initialiser. -/
theorem polled_running (h : c.Sound) (hl : c.lookups[l]? = some lookup)
    (hs : lookup.stage = .running d) :
    Polled c l (c.continueRunning l lookup d).2 (c.continueRunning l lookup d).1 := by
  have hstage : c.stage? l = some (.running d) := by rw [stage?_of_getElem? hl, hs]
  have howner := h.owner_of_running hstage
  have hprep : c.prepare l = c := by
    apply prepare_of_not_fresh
    simp [hstage]
  have hsh : Shift (c.prepare l) c l (.running d) d ((c.cellAt d).take l) := by
    rw [hprep, Cell.take_of_owner howner]
    exact ⟨by rw [← hstage, Function.update_eq_self], rfl, by rw [Function.update_eq_self], rfl⟩
  rcases (Turn.kept hstage).polled hl (key?_of_getElem? hl) (h.attached_lt (Or.inr hstage))
    (h.value_of_owner howner) hsh (by rw [hprep]) rfl rfl with ⟨-, he⟩ | hp
  · rw [he]
    refine Polled.idle ?_ ?_
    · simp [hstage]
    · intro e he
      rw [hstage] at he
      cases he
  · exact hp

/-- The poll of a lookup that waits. -/
theorem polled_waiting (h : c.Sound) (hl : c.lookups[l]? = some lookup)
    (hs : lookup.stage = .waiting d) :
    Polled c l (c.pollWaiting l lookup d).2 (c.pollWaiting l lookup d).1 := by
  have hstage : c.stage? l = some (.waiting d) := by rw [stage?_of_getElem? hl, hs]
  have hlt := h.attached_lt (Or.inl hstage)
  have hk := key?_of_getElem? hl
  have hprep : c.prepare l = c := by
    apply prepare_of_not_fresh
    simp [hstage]
  unfold pollWaiting
  rw [getElem?_cells hlt]
  dsimp only
  split
  case h_1 value hv =>
    -- whoever filled the cell has taken it from the pending ones, so nothing is stored again
    have hmap : c.pendingCell? lookup.key ≠ some d := by
      intro hm
      rw [h.mapped_value hm] at hv
      cases hv
    rw [returnValue_of_not_mapped hmap]
    exact Polled.receive hstage hk hv (shift_setStage hl .ended d) rfl rfl
  case h_2 hv =>
    split
    case isTrue ho =>
      refine (Turn.handed hstage ho).polled_begin hl hk hlt hv ?_ (by rw [hprep]) rfl rfl
      rw [hprep, Cell.take_of_owner ho]
      exact shift_setStage hl (.running d) d
    case isFalse ho =>
      refine Polled.idle ?_ ?_
      · simp [hstage]
      · intro e he
        rw [hstage] at he
        cases he
        exact ⟨hv, ho⟩

/-- The first poll of a lookup whose key has no stored value. -/
theorem polled_arrive (h : c.Sound) (hl : c.lookups[l]? = some lookup)
    (hs : lookup.stage = .fresh) (hn : c.stored.find? lookup.key = none)
    {c₀ : Cache κ ν ε} (hc₀ : c₀ = { (c.attach lookup.key).1 with misses := c.misses + 1 }) :
    Polled c l (c₀.arrive l lookup (c.attach lookup.key).2).2
      (c₀.arrive l lookup (c.attach lookup.key).2).1 := by
  have hstage : c.stage? l = some .fresh := by rw [stage?_of_getElem? hl, hs]
  have hk := key?_of_getElem? hl
  have hprep := prepare_of_fresh hstage hk hn
  have hmap : (c.prepare l).pendingCell? lookup.key = some (c.attach lookup.key).2 := by
    rw [hprep, pendingCell?_attach, Function.update_self]
  have hlt := (h.prepare l).mapped_lt hmap
  have hv := (h.prepare l).mapped_value hmap
  rw [cellAt_prepare] at hv
  generalize (c.attach lookup.key).2 = d at hmap hlt hv ⊢
  rw [← hprep] at hc₀
  -- apart from the count of misses the prepared cache is the one at hand
  have hl₀ : c₀.lookups[l]? = some lookup := by rw [hc₀, ← hl, ← lookups_prepare c l]
  have hlt₀ : d < c₀.cells.length := by rw [hc₀]; exact hlt
  have hcell₀ : c₀.cellAt = c.cellAt := by rw [hc₀, ← cellAt_prepare c l]; rfl
  have hp₀ : c₀.pendingCell? = (c.prepare l).pendingCell? := by rw [hc₀]; rfl
  have hst₀ : c₀.stored = c.stored := by rw [hc₀, ← stored_prepare c l]
  have hev₀ : c₀.eviction = c.eviction := by rw [hc₀, ← eviction_prepare c l]
  have hsh₀ : ∀ (change : Cell ν → Cell ν) (s : Stage),
      Shift (c.prepare l) ((c₀.modifyCell d change).setStage l s) l s d (change (c.cellAt d)) := by
    intro change s
    have hsh := shift_modifyCell_setStage hl₀ hlt₀ change s
    rw [hcell₀] at hsh
    exact ⟨by rw [hsh.stage, hc₀]; rfl, by rw [hsh.key, hc₀]; rfl,
      by rw [hsh.cell, hcell₀, cellAt_prepare], by rw [hsh.length, hc₀]⟩
  unfold arrive
  rw [getElem?_cells hlt₀, hcell₀]
  dsimp only
  rw [hv]
  cases ho : (c.cellAt d).owner with
  | none =>
    have hl₁ : (c₀.modifyCell d fun found => { found with owner := some l }).lookups[l]? =
        some lookup := hl₀
    refine (Turn.taken hstage hk hn hmap ho).polled_begin hl₁ hk ?_ hv (hsh₀ _ _) hp₀ hst₀ hev₀
    rw [modifyCell, List.length_modify]
    exact hlt₀
  | some o =>
    exact Polled.wait hstage hk hn hmap (by simp [ho]) (hsh₀ _ _) hp₀ hst₀

/-- Every poll goes in one of the ways listed. -/
theorem polled (h : c.Sound) (l : LookupId) : Polled c l (c.poll l).2 (c.poll l).1 := by
  unfold poll
  cases hl : c.lookups[l]? with
  | none =>
    have hstage : c.stage? l = none := by rw [stage?, hl, Option.map_none]
    exact Polled.idle (by simp [hstage]) (by simp [hstage])
  | some lookup =>
    dsimp only
    cases hs : lookup.stage with
    | fresh =>
      dsimp only [firstPoll]
      split
      case h_1 value hv =>
        have hstage : c.stage? l = some .fresh := by rw [stage?_of_getElem? hl, hs]
        have hsh := shift_setStage hl .ended 0
        exact Polled.hit hstage (key?_of_getElem? hl) hv
          ⟨hsh.stage, hsh.key, hsh.cell, hsh.length⟩ rfl rfl
      case h_2 hn =>
        apply h.polled_arrive hl hs hn
        rcases attach_cases c lookup.key with ⟨-, he⟩ | ⟨-, -, he⟩ <;> rw [he]
    | waiting d => exact h.polled_waiting hl hs
    | running d => exact h.polled_running hl hs
    | ended =>
      have hstage : c.stage? l = some .ended := by rw [stage?_of_getElem? hl, hs]
      exact Polled.idle (by simp [hstage]) (by simp [hstage])

end Sound

/-! ## Polls keep the invariant -/

namespace Turn

variable {c : Cache κ ν ε} {l : LookupId} {d : CellId} {shown : List (CacheEvent ν ε)}

/-- The turn is at a cell that was made. -/
theorem lt (ht : Turn c l d shown) (h : c.Sound) : d < (c.prepare l).cells.length := by
  cases ht with
  | taken _ _ _ hm _ => exact (h.prepare l).mapped_lt hm
  | handed hs _ => exact (h.prepare l).attached_lt (attachedTo_prepare.mpr (Or.inl hs))
  | kept hs => exact (h.prepare l).attached_lt (attachedTo_prepare.mpr (Or.inr hs))

/-- There is no value yet. -/
theorem value (ht : Turn c l d shown) (h : c.Sound) : (c.cellAt d).value = none := by
  cases ht with
  | taken _ _ _ hm _ => exact h.value_of_prepare hm
  | handed _ ho => exact h.value_of_owner ho
  | kept hs => exact h.value_of_owner (h.owner_of_running hs)

/-- Nobody else has the turn. -/
theorem owner (ht : Turn c l d shown) (h : c.Sound) :
    (c.cellAt d).owner = none ∨ (c.cellAt d).owner = some l := by
  cases ht with
  | taken _ _ _ _ ho => exact Or.inl ho
  | handed _ ho => exact Or.inr ho
  | kept hs => exact Or.inr (h.owner_of_running hs)

/-- The lookup is attached to no other cell. -/
theorem eq_of_attached (ht : Turn c l d shown) {e : CellId} (ha : c.AttachedTo l e) : e = d := by
  cases ht with
  | taken hs => exact absurd ha (not_attachedTo_of_fresh hs e)
  | handed hs _ => exact ha.unique (Or.inl hs)
  | kept hs => exact ha.unique (Or.inr hs)

/-- The lookup looks for the key that its cell is the pending one of. -/
theorem key_of_mapped (ht : Turn c l d shown) (h : c.Sound) {k : κ}
    (hm : (c.prepare l).pendingCell? k = some d) : c.key? l = some k := by
  cases ht with
  | taken _ hk _ hm' _ => rw [hk, (h.prepare l).mapped_inj hm hm']
  | handed hs _ =>
    rw [← key?_prepare c l]
    exact (h.prepare l).mapped_key hm (attachedTo_prepare.mpr (Or.inl hs))
  | kept hs =>
    rw [← key?_prepare c l]
    exact (h.prepare l).mapped_key hm (attachedTo_prepare.mpr (Or.inr hs))

/-- The key of the pending cell that a poll is about is the polled lookup's. -/
theorem key_eq_of_mapped (ht : Turn c l d shown) (h : c.Sound) {k key : κ}
    (hk : c.key? l = some key) (hm : (c.prepare l).pendingCell? k = some d) : k = key := by
  have hkey := ht.key_of_mapped h hm
  rw [hk, Option.some_inj] at hkey
  exact hkey.symm

/-- Whose turn it is does not wait for it. -/
theorem not_mem_waiting (ht : Turn c l d shown) (h : c.Sound) : l ∉ (c.cellAt d).waiting := by
  rcases ht.owner h with ho | ho
  · rw [(h.inOrder d).waiting_nil ho]
    exact List.not_mem_nil
  · have hnodup := (h.inOrder d).nodup
    rw [Cell.line, ho] at hnodup
    exact (List.nodup_cons.mp hnodup).1

/-- All others in the line wait. -/
theorem mem_line_iff (ht : Turn c l d shown) (h : c.Sound) {x : LookupId} (hx : x ≠ l) :
    x ∈ (c.cellAt d).line ↔ x ∈ (c.cellAt d).waiting := by
  rcases ht.owner h with ho | ho <;> simp [Cell.line, ho, hx]

/-- Nobody else loses the turn. -/
theorem owner_of_ne (ht : Turn c l d shown) (h : c.Sound) {x : LookupId} (hx : x ≠ l) :
    (c.cellAt d).owner ≠ some x := by
  intro ho
  rcases ht.owner h with ho' | ho' <;> rw [ho'] at ho
  · cases ho
  · exact hx (Option.some_inj.mp ho).symm

/-- To begin running fits. -/
theorem fits_take (ht : Turn c l d shown) (h : c.Sound) :
    Fits (c.prepare l) l (.running d) d ((c.cellAt d).take l) := by
  have hv := ht.value h
  constructor
  case stage => exact Or.inr ⟨Or.inr rfl, ht.lt h⟩
  case only => exact fun ha => ht.eq_of_attached (attachedTo_prepare.mp ha)
  case key =>
    intro _ k hk
    rw [key?_prepare]
    exact ht.key_of_mapped h hk
  case inOrder => exact (h.inOrder d).take (ht.not_mem_waiting h) hv
  case self => simp [hv]
  case running => exact fun _ => rfl
  all_goals rw [cellAt_prepare]
  case value => exact fun _ => hv
  case others =>
    intro x hx
    rw [ht.mem_line_iff h hx]
    simp [hx, hv]
  case owner => exact fun hx ho => absurd ho (ht.owner_of_ne h hx)

/-- To end fits if the cell is filled or the turn is passed on. -/
theorem fits_ended (ht : Turn c l d shown) (h : c.Sound) {cell : Cell ν}
    (hcell : (∃ value, cell = (c.cellAt d).fill value) ∨ cell = (c.cellAt d).passTurn) :
    Fits (c.prepare l) l .ended d cell := by
  have hv := ht.value h
  constructor
  case stage => exact Or.inl rfl
  case only => exact fun ha => ht.eq_of_attached (attachedTo_prepare.mp ha)
  case key => exact fun hne => absurd rfl hne
  case inOrder =>
    rcases hcell with ⟨value, rfl⟩ | rfl
    · exact Cell.InOrder.fill value _
    · exact (h.inOrder d).passTurn
  case self =>
    have hl := ht.not_mem_waiting h
    rcases hcell with ⟨value, rfl⟩ | rfl
    · simp
    · simp [hl]
  case running => exact fun hs => by cases hs
  all_goals rw [cellAt_prepare]
  case value => exact fun _ => hv
  case others =>
    intro x hx
    rw [ht.mem_line_iff h hx]
    rcases hcell with ⟨value, rfl⟩ | rfl
    · simp
    · simp [hv]
  case owner => exact fun hx ho => absurd ho (ht.owner_of_ne h hx)

end Turn

/-- To wait at the end of a line fits. -/
theorem Sound.fits_join {c : Cache κ ν ε} (h : c.Sound) {l : LookupId} {d : CellId} {key : κ}
    (hs : c.stage? l = some .fresh) (hk : c.key? l = some key)
    (hm : (c.prepare l).pendingCell? key = some d) (ho : (c.cellAt d).owner ≠ none) :
    Fits (c.prepare l) l (.waiting d) d ((c.cellAt d).join l) := by
  have hv := h.value_of_prepare hm
  have hno := not_attachedTo_of_fresh hs
  constructor
  case stage => exact Or.inr ⟨Or.inl rfl, (h.prepare l).mapped_lt hm⟩
  case only => exact fun ha => absurd (attachedTo_prepare.mp ha) (hno _)
  case key =>
    intro _ k hk'
    rw [key?_prepare, hk, (h.prepare l).mapped_inj hk' hm]
  case inOrder => exact (h.inOrder d).join (fun hl => hno d (h.attached_of_mem_line hl)) ho
  case self => simp [hv]
  case running => exact fun hs => by cases hs
  all_goals rw [cellAt_prepare]
  case value => exact fun _ => hv
  case others =>
    intro x hx
    simp [hx, hv]
  case owner => exact fun _ hx => hx

/-- Pending cells that stay as they were prepared have no stored value, and are not filled as long as
the cell that is filled is not one of them. -/
theorem Sound.pending_of_kept {c c' : Cache κ ν ε} (h : c.Sound) {l : LookupId} {d : CellId}
    {cell : Cell ν} (hpend : c'.pendingCell? = (c.prepare l).pendingCell?)
    (hst : c'.stored = c.stored) (hv : (∃ k, c'.pendingCell? k = some d) → cell.value = none)
    {k : κ} {e : CellId} (hke : c'.pendingCell? k = some e) :
    (c.prepare l).pendingCell? k = some e ∧ (e = d → cell.value = none) ∧
      c'.stored.find? k = none := by
  refine ⟨by rw [← hpend, hke], ?_, ?_⟩
  · rintro rfl
    exact hv ⟨k, hke⟩
  · rw [hpend] at hke
    rw [hst, h.stored_of_prepare hke]

/-- Every poll keeps the invariant. -/
theorem Polled.sound {c c' : Cache κ ν ε} {l : LookupId} {shown : List (CacheEvent ν ε)}
    (hpoll : Polled c l shown c') (h : c.Sound) : c'.Sound := by
  have hp := h.prepare l
  cases hpoll with
  | idle => exact h
  | hit hs _ _ hsh hpend hst =>
    have hno := not_attachedTo_of_fresh hs
    refine h.shift_of_not_mem_line hsh (fun e he => absurd he (hno e)) ?_ hpend ?_
    · exact fun hm => hno 0 (h.attached_of_mem_line hm)
    · rw [hst, RecencyList.find?_touch]
  | wait hs hk hn hm ho hsh hpend hst =>
    refine hp.shift hsh (h.fits_join hs hk hm ho) (h.pending_of_kept hpend hst fun _ => ?_)
    rw [Cell.value_join, h.value_of_prepare hm]
  | @receive key d value _ hs hk hv hsh hpend hst =>
    have hline := (h.inOrder d).line_nil (by rw [hv]; exact Option.some_ne_none value)
    refine h.shift_of_not_mem_line hsh (fun e he => he.unique (Or.inl hs)) ?_ hpend (by rw [hst])
    rw [hline]
    exact List.not_mem_nil
  | begin ht hsh hpend hst =>
    refine hp.shift hsh (ht.fits_take h) (h.pending_of_kept hpend hst fun _ => ?_)
    rw [Cell.value_take, ht.value h]
  | @store _ key d value _ ht hk hm hsh hpend hst =>
    refine hp.shift hsh (ht.fits_ended h (Or.inl ⟨value, rfl⟩)) ?_
    intro k e hke
    rw [hpend, Function.update_apply] at hke
    split at hke
    case isTrue => cases hke
    case isFalse hne =>
      -- the cells of the other keys are others, and what is stored of these keys was stored before
      refine ⟨hke, ?_, ?_⟩
      · rintro rfl
        exact absurd (hp.mapped_inj hke hm) hne
      · rw [Option.eq_none_iff_forall_ne_some]
        intro other hother
        rw [hst] at hother
        have hold := RecencyList.find?_of_find?_put hne hother
        rw [h.stored_of_prepare hke] at hold
        cases hold
  | orphan ht hk hm hsh hpend hst =>
    refine hp.shift hsh (ht.fits_ended h (Or.inl ⟨_, rfl⟩)) (h.pending_of_kept hpend hst ?_)
    -- the cell that is filled is not the pending one of any key
    rintro ⟨k, hke⟩
    rw [hpend] at hke
    rw [ht.key_eq_of_mapped h hk hke] at hke
    exact absurd hke hm
  | @forget _ key d error _ ht hk hm hw hsh hpend hst =>
    refine hp.shift hsh (ht.fits_ended h (Or.inr rfl)) ?_
    intro k e hke
    rw [hpend, Function.update_apply] at hke
    split at hke
    case isTrue => cases hke
    case isFalse hne =>
      refine ⟨hke, fun _ => ht.value h, ?_⟩
      rw [hst, h.stored_of_prepare hke]
  | fail ht hk hm hsh hpend hst =>
    refine hp.shift hsh (ht.fits_ended h (Or.inr rfl)) (h.pending_of_kept hpend hst fun _ => ?_)
    rw [Cell.value_passTurn, ht.value h]

end Cache

end RemoteTable
