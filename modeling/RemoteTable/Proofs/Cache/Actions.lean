import RemoteTable.Proofs.Cache.Steps

/-!
# What the actions on a cache do

An action other than a poll and a cancellation touches no cell and no lookup that was started
(`Cache.Quiet`); a cancelled lookup leaves its cell (`Cache.Cancelled`). Together with the ways in
which a poll can go, these are all steps (`Cache.Sound.stepped`), so that every step keeps the
invariant and every cache that can be reached is sound (`Cache.Reachable.sound`).
-/

namespace RemoteTable

namespace Cache

variable {κ ν ε : Type} [DecidableEq κ]

/-- An action drops a key if it is told to drop this key or all keys. -/
def Action.Drops (k : κ) : Action κ ν ε → Prop
  | .invalidate key => key = k
  | .clear => True
  | _ => False

instance (k : κ) : DecidablePred (Action.Drops k : Action κ ν ε → Prop) := fun
  | .invalidate key => inferInstanceAs (Decidable (key = k))
  | .clear => inferInstanceAs (Decidable True)
  | .start _ _ | .decideGate _ _ | .poll _ | .cancel _ | .get _ =>
    inferInstanceAs (Decidable False)

/-- Cells, stages and keys of the lookups that were started stay as they are; pending cells and
stored values stay or are dropped. -/
structure Quiet (c c' : Cache κ ν ε) (action : Action κ ν ε) : Prop where
  /-- A lookup that was started stays in its stage. -/
  stage : ∀ {x s}, c.stage? x = some s → c'.stage? x = some s
  /-- A lookup that is started has not been polled. -/
  stage_new : ∀ {x s}, c.stage? x = none → c'.stage? x = some s → s = .fresh
  /-- A lookup keeps its key. -/
  key : ∀ {x k}, c.key? x = some k → c'.key? x = some k
  /-- Cells stay as they are. -/
  cell : c'.cellAt = c.cellAt
  /-- No cell is made. -/
  length : c'.cells.length = c.cells.length
  /-- No cell becomes a pending one. -/
  pending : ∀ {k d}, c'.pendingCell? k = some d → c.pendingCell? k = some d
  /-- No value is stored. -/
  stored : ∀ {k v}, c'.stored.find? k = some v → c.stored.find? k = some v
  /-- A key that is not dropped keeps its pending cell. -/
  pending_kept : ∀ {k d}, ¬ action.Drops k → c.pendingCell? k = some d → c'.pendingCell? k = some d
  /-- A key that is not dropped keeps its stored value. -/
  stored_kept : ∀ {k v}, ¬ action.Drops k → c.stored.find? k = some v → c'.stored.find? k = some v
  /-- A key that is dropped has no pending cell. -/
  pending_dropped : ∀ {k}, action.Drops k → c'.pendingCell? k = none
  /-- A key that is dropped has no stored value. -/
  stored_dropped : ∀ {k}, action.Drops k → c'.stored.find? k = none

/-- The ways in which a cancellation can go. -/
inductive Cancelled (c : Cache κ ν ε) (l : LookupId) : Cache κ ν ε → Prop where
  /-- There is no such lookup. -/
  | unknown : c.stage? l = none → Cancelled c l c
  /-- The lookup has not been polled, or it has ended. -/
  | free {c' : Cache κ ν ε} : (∀ d, ¬ c.AttachedTo l d) →
    Shift c c' l .ended 0 (c.cellAt 0) → c'.pendingCell? = c.pendingCell? →
    c'.stored = c.stored → Cancelled c l c'
  /-- The lookup leaves its cell. -/
  | left {d : CellId} {c' : Cache κ ν ε} : c.AttachedTo l d →
    Shift c c' l .ended d ((c.cellAt d).leave l) → c'.pendingCell? = c.pendingCell? →
    c'.stored = c.stored → Cancelled c l c'

/-- The ways in which an action can go, with what it shows. -/
inductive Stepped (c : Cache κ ν ε) :
    Action κ ν ε → List (Observation κ ν ε) → Cache κ ν ε → Prop where
  /-- Neither a lookup that was started nor a cell is touched. -/
  | quiet {action : Action κ ν ε} {seen : List (Observation κ ν ε)} {c' : Cache κ ν ε} :
    (∀ l, action ≠ .poll l) → (∀ l, action ≠ .cancel l) → (∀ event, .polled event ∉ seen) →
    Quiet c c' action → Stepped c action seen c'
  /-- A lookup is polled. -/
  | polled {l : LookupId} {shown : List (CacheEvent ν ε)} {c' : Cache κ ν ε} :
    Polled c l shown c' → Stepped c (.poll l) (shown.map .polled) c'
  /-- A lookup is cancelled. -/
  | cancelled {l : LookupId} {c' : Cache κ ν ε} : Cancelled c l c' → Stepped c (.cancel l) [] c'

/-! ## Quiet actions -/

omit [DecidableEq κ] in
/-- A lookup that was not started has no stage. -/
theorem stage?_of_length_le {c : Cache κ ν ε} {x : LookupId} (h : c.lookups.length ≤ x) :
    c.stage? x = none := by
  rw [stage?, List.getElem?_eq_none h, Option.map_none]

omit [DecidableEq κ] in
/-- The lookup that is started is fresh, and the others are as before. -/
theorem getElem?_lookups_start (c : Cache κ ν ε) (key : κ) (gate : Option (Except ε ν))
    (x : LookupId) :
    (c.start key gate).1.lookups[x]? =
      if x = c.lookups.length then some ⟨key, .fresh, gate⟩ else c.lookups[x]? := by
  show (c.lookups ++ [(⟨key, .fresh, gate⟩ : Lookup κ ν ε)])[x]? = _
  rcases Nat.lt_trichotomy x c.lookups.length with h | rfl | h
  · rw [List.getElem?_append_left h, if_neg (Nat.ne_of_lt h)]
  · rw [List.getElem?_concat_length, if_pos rfl]
  · have hlen : (c.lookups ++ [(⟨key, .fresh, gate⟩ : Lookup κ ν ε)]).length ≤ x := by
      rw [List.length_append, List.length_singleton]
      exact Nat.succ_le_of_lt h
    rw [if_neg (Nat.ne_of_gt h), List.getElem?_eq_none (Nat.le_of_lt h),
      List.getElem?_eq_none hlen]

/-- A start touches no cell and no other lookup. -/
theorem quiet_start (c : Cache κ ν ε) (key : κ) (gate : Option (Except ε ν)) :
    Quiet c (c.start key gate).1 (.start key gate) where
  -- a lookup that is there has another name than the one that is started
  stage {x s} h := by
    have hx : x ≠ c.lookups.length := by
      rintro rfl
      rw [stage?_of_length_le (Nat.le_refl _)] at h
      cases h
    rw [stage?, getElem?_lookups_start, if_neg hx]
    exact h
  stage_new {x s} h h' := by
    rw [stage?, getElem?_lookups_start] at h'
    split at h'
    · exact (Option.some_inj.mp h').symm
    · rw [← stage?, h] at h'
      cases h'
  key {x k} h := by
    have hx : x ≠ c.lookups.length := by
      rintro rfl
      rw [key?, List.getElem?_eq_none (Nat.le_refl _)] at h
      cases h
    rw [key?, getElem?_lookups_start, if_neg hx]
    exact h
  cell := rfl
  length := rfl
  pending h := h
  stored h := h
  pending_kept _ h := h
  stored_kept _ h := h
  pending_dropped h := h.elim
  stored_dropped h := h.elim

/-- An action that touches stored values and pending cells alone. -/
theorem quiet_of_eq {c c' : Cache κ ν ε} {action : Action κ ν ε} (dropped : κ → Prop)
    [DecidablePred dropped] (hstage : c'.stage? = c.stage?) (hkey : c'.key? = c.key?)
    (hc : c'.cells = c.cells)
    (hp : ∀ k, c'.pendingCell? k = if dropped k then none else c.pendingCell? k)
    (hs : ∀ k, c'.stored.find? k = if dropped k then none else c.stored.find? k)
    (hd : ∀ k, action.Drops k ↔ dropped k) : Quiet c c' action where
  stage {x s} h := by rw [hstage, h]
  stage_new {x s} h h' := by
    rw [hstage, h] at h'
    cases h'
  key {x k} h := by rw [hkey, h]
  cell := by
    funext d
    rw [cellAt, cellAt, hc]
  length := by rw [hc]
  pending {k d} h := by
    rw [hp] at h
    split at h
    · cases h
    · exact h
  stored {k v} h := by
    rw [hs] at h
    split at h
    · cases h
    · exact h
  pending_kept {k d} hn h := by rw [hp, if_neg (fun hk => hn ((hd k).mpr hk)), h]
  stored_kept {k v} hn h := by rw [hs, if_neg (fun hk => hn ((hd k).mpr hk)), h]
  pending_dropped {k} h := by rw [hp, if_pos ((hd k).mp h)]
  stored_dropped {k} h := by rw [hs, if_pos ((hd k).mp h)]

/-- The decision about an initialiser touches no cell and no stage. -/
theorem quiet_decideGate (c : Cache κ ν ε) (l : LookupId) (outcome : Except ε ν) :
    Quiet c (c.decideGate l outcome) (.decideGate l outcome) := by
  refine quiet_of_eq (fun _ => False) ?_ ?_ rfl (fun _ => rfl) (fun _ => rfl)
    (fun _ => Iff.rfl)
  · funext x
    by_cases hx : l = x
    · cases h : c.lookups[x]? <;> simp [stage?, decideGate, hx, h]
    · simp [stage?, decideGate, hx]
  · funext x
    by_cases hx : l = x
    · cases h : c.lookups[x]? <;> simp [key?, decideGate, hx, h]
    · simp [key?, decideGate, hx]

theorem quiet_get (c : Cache κ ν ε) (key : κ) : Quiet c (c.get key).1 (.get key) := by
  refine quiet_of_eq (fun _ => False) rfl rfl rfl (fun _ => rfl) ?_ (fun _ => Iff.rfl)
  intro k
  rw [if_neg id]
  exact congrFun (RecencyList.find?_touch c.stored key) k

theorem quiet_invalidate (c : Cache κ ν ε) (key : κ) :
    Quiet c (c.invalidate key) (.invalidate key) := by
  refine quiet_of_eq (fun k => k = key) rfl rfl rfl ?_ ?_ ?_
  · intro k
    exact (congrFun (pendingCell?_removePending c key) k).trans (Function.update_apply ..)
  · intro k
    exact (congrFun (RecencyList.find?_erase c.stored key) k).trans (Function.update_apply ..)
  · exact fun k => eq_comm

theorem quiet_clear (c : Cache κ ν ε) : Quiet c c.clear .clear :=
  quiet_of_eq (fun _ => True) rfl rfl rfl (fun _ => rfl) (fun _ => rfl) (fun _ => Iff.rfl)

/-! ## Cancellations -/

/-- Every cancellation goes in one of the ways listed. -/
theorem Sound.cancelled {c : Cache κ ν ε} (h : c.Sound) (l : LookupId) :
    Cancelled c l (c.cancel l) := by
  unfold cancel
  cases hl : c.lookups[l]? with
  | none => exact Cancelled.unknown (by rw [stage?, hl, Option.map_none])
  | some lookup =>
    have hstage := stage?_of_getElem? hl
    dsimp only
    cases hs : lookup.stage with
    | fresh =>
      rw [hs] at hstage
      exact Cancelled.free (not_attachedTo_of_fresh hstage) (shift_setStage hl .ended 0) rfl rfl
    | ended =>
      rw [hs] at hstage
      exact Cancelled.free (not_attachedTo_of_ended hstage) (shift_setStage hl .ended 0) rfl rfl
    | waiting d =>
      rw [hs] at hstage
      have ha : c.AttachedTo l d := Or.inl hstage
      exact Cancelled.left ha
        (shift_modifyCell_setStage hl (h.attached_lt ha) (Cell.leave l) .ended) rfl rfl
    | running d =>
      rw [hs] at hstage
      have ha : c.AttachedTo l d := Or.inr hstage
      exact Cancelled.left ha
        (shift_modifyCell_setStage hl (h.attached_lt ha) (Cell.leave l) .ended) rfl rfl

/-! ## Every step keeps the invariant -/

/-- A quiet action leaves everybody attached as before. -/
theorem Quiet.attachedTo_iff {c c' : Cache κ ν ε} {action : Action κ ν ε} (q : Quiet c c' action)
    {x : LookupId} {d : CellId} : c'.AttachedTo x d ↔ c.AttachedTo x d := by
  constructor
  · intro h
    cases hs : c.stage? x with
    | none => rcases h with h | h <;> cases q.stage_new hs h
    | some s => rwa [AttachedTo, q.stage hs, ← hs] at h
  · rintro (h | h)
    · exact Or.inl (q.stage h)
    · exact Or.inr (q.stage h)

/-- A quiet action keeps the invariant. -/
theorem Quiet.sound {c c' : Cache κ ν ε} {action : Action κ ν ε} (q : Quiet c c' action)
    (h : c.Sound) : c'.Sound where
  mapped_lt hk := by
    rw [q.length]
    exact h.mapped_lt (q.pending hk)
  mapped_inj hk hk' := h.mapped_inj (q.pending hk) (q.pending hk')
  mapped_value hk := by
    rw [q.cell]
    exact h.mapped_value (q.pending hk)
  mapped_stored hk := by
    rw [Option.eq_none_iff_forall_ne_some]
    intro v hv
    have hold := q.stored hv
    rw [h.mapped_stored (q.pending hk)] at hold
    cases hold
  mapped_key hk ha := q.key (h.mapped_key (q.pending hk) (q.attachedTo_iff.mp ha))
  attached_lt ha := by
    rw [q.length]
    exact h.attached_lt (q.attachedTo_iff.mp ha)
  inOrder d := by
    rw [q.cell]
    exact h.inOrder d
  attached_of_mem_line hl := by
    rw [q.cell] at hl
    exact q.attachedTo_iff.mpr (h.attached_of_mem_line hl)
  mem_line_of_attached ha hv := by
    rw [q.cell] at hv ⊢
    exact h.mem_line_of_attached (q.attachedTo_iff.mp ha) hv
  owner_of_running {l d} hr := by
    rw [q.cell]
    cases hs : c.stage? l with
    | none => cases q.stage_new hs hr
    | some s =>
      rw [q.stage hs, ← hs] at hr
      exact h.owner_of_running hr

/-- To leave the cell fits. -/
theorem Sound.fits_leave {c : Cache κ ν ε} (h : c.Sound) {l : LookupId} {d : CellId}
    (ha : c.AttachedTo l d) : Fits c l .ended d ((c.cellAt d).leave l) := by
  constructor
  case stage => exact Or.inl rfl
  case only => exact fun he => he.unique ha
  case key => exact fun hne => absurd rfl hne
  case inOrder => exact (h.inOrder d).leave l
  case value =>
    rw [Cell.value_leave]
    exact id
  case others =>
    intro x hx
    rw [Cell.line_leave, List.mem_erase_of_ne hx, Cell.value_leave]
    exact ⟨fun hm => ⟨h.value_of_mem_line hm, hm⟩, fun hm => hm.2⟩
  case self =>
    rw [Cell.line_leave]
    exact ⟨fun hm => absurd hm (h.inOrder d).nodup.not_mem_erase, fun hne => absurd rfl hne.2⟩
  case running => exact fun hs => by cases hs
  case owner => exact fun hx ho => Cell.owner_leave_of_ne hx ho

/-- A cancellation keeps the invariant. -/
theorem Cancelled.sound {c c' : Cache κ ν ε} {l : LookupId} (hc : Cancelled c l c')
    (h : c.Sound) : c'.Sound := by
  cases hc with
  | unknown => exact h
  | free hl hsh hpend hst =>
    refine h.shift_of_not_mem_line hsh (fun e he => absurd he (hl e)) ?_ hpend (by rw [hst])
    exact fun hm => hl 0 (h.attached_of_mem_line hm)
  | @left d _ ha hsh hpend hst =>
    refine h.shift hsh (h.fits_leave ha) ?_
    intro k e hk
    rw [hpend] at hk
    refine ⟨hk, ?_, ?_⟩
    · rintro rfl
      rw [Cell.value_leave]
      exact h.mapped_value hk
    · rw [hst]
      exact h.mapped_stored hk

/-- In a sound cache every action goes in one of the ways listed. -/
theorem Sound.stepped {c : Cache κ ν ε} (h : c.Sound) (action : Action κ ν ε) :
    Stepped c action (c.step action).2 (c.step action).1 := by
  cases action with
  | start key gate => exact .quiet (by simp) (by simp) (by simp [step]) (quiet_start c key gate)
  | decideGate l outcome =>
    exact .quiet (by simp) (by simp) (by simp [step]) (quiet_decideGate c l outcome)
  | poll l => exact .polled (h.polled l)
  | cancel l => exact .cancelled (h.cancelled l)
  | get key => exact .quiet (by simp) (by simp) (by simp [step]) (quiet_get c key)
  | invalidate key => exact .quiet (by simp) (by simp) (by simp [step]) (quiet_invalidate c key)
  | clear => exact .quiet (by simp) (by simp) (by simp [step]) (quiet_clear c)

/-- Only a poll goes in the ways in which polls go. -/
theorem Stepped.polled_of_poll {c c' : Cache κ ν ε} {l : LookupId}
    {seen : List (Observation κ ν ε)} (hs : Stepped c (.poll l) seen c') :
    ∃ shown, Polled c l shown c' ∧ seen = shown.map .polled := by
  cases hs with
  | quiet hpoll => exact absurd rfl (hpoll l)
  | polled hp => exact ⟨_, hp, rfl⟩

theorem Stepped.cancelled_of_cancel {c c' : Cache κ ν ε} {l : LookupId}
    {seen : List (Observation κ ν ε)} (hs : Stepped c (.cancel l) seen c') : Cancelled c l c' := by
  cases hs with
  | quiet _ hcancel => exact absurd rfl (hcancel l)
  | cancelled hc => exact hc

/-- Every step keeps the invariant. -/
theorem Stepped.sound {c c' : Cache κ ν ε} {action : Action κ ν ε}
    {seen : List (Observation κ ν ε)} (hs : Stepped c action seen c') (h : c.Sound) :
    c'.Sound := by
  cases hs with
  | quiet _ _ _ q => exact q.sound h
  | polled hp => exact hp.sound h
  | cancelled hc => exact hc.sound h

/-- Every action keeps the invariant. -/
theorem Sound.step {c : Cache κ ν ε} (h : c.Sound) (action : Action κ ν ε) :
    (c.step action).1.Sound :=
  (h.stepped action).sound h

/-- **Every cache that can be reached is sound.** -/
theorem Reachable.sound {eviction : Eviction} {c : Cache κ ν ε} (h : Reachable eviction c) :
    c.Sound := by
  induction h with
  | empty => exact sound_empty eviction
  | step action _ ih => exact ih.step action

end Cache

end RemoteTable
