import Mathlib.Data.Nat.Init
import RemoteTable.Proofs.Cache.Effects

/-!
# Histories of a cache

A run does one action at each moment. What happens in it is said by moments: when a lookup is first
polled (`Run.FirstPolled`), when it joins a cell (`Run.Joins`), when its initialiser begins, runs
and succeeds (`Run.Begins`, `Run.Busy`, `Run.Succeeds`), when it returns (`Run.Returns`), and when a
key is dropped (`Run.Drops`).

* `Run.exists_joins`: an attached lookup has joined its cell, and has been attached ever since;
* `Run.mapped_of_attached`: the cell of a lookup stays the pending one until the key is dropped;
* `Run.mapped_mono`: a cell that is not the pending one any more never becomes it again;
* `Run.exists_succeeds`: the value of a cell was found by an initialiser.
-/

namespace RemoteTable

namespace Cache

/-- To carry out two lists of actions is to carry out the first one and then the second one. -/
theorem runActions_append {κ ν ε : Type} [DecidableEq κ] (c : Cache κ ν ε)
    (as bs : List (Action κ ν ε)) :
    c.runActions (as ++ bs) =
      (((c.runActions as).1.runActions bs).1,
        (c.runActions as).2 ++ ((c.runActions as).1.runActions bs).2) := by
  induction as generalizing c with
  | nil => rfl
  | cons a as ih =>
    simp only [List.cons_append, runActions, ih, List.append_assoc]

/-- A run: how stored values are dropped, and what is done at each moment. -/
structure Run (κ ν ε : Type) where
  /-- When stored values are dropped. -/
  eviction : Eviction
  /-- What is done at a moment. -/
  action : ℕ → Action κ ν ε

namespace Run

variable {κ ν ε : Type} [DecidableEq κ]

/-! ## What happens in a run -/

/-- The cache at a moment, before the action of this moment. -/
def cache (r : Run κ ν ε) : ℕ → Cache κ ν ε
  | 0 => Cache.empty r.eviction
  | t + 1 => ((r.cache t).step (r.action t)).1

/-- What the action of a moment shows. -/
def shown (r : Run κ ν ε) (t : ℕ) : List (Observation κ ν ε) :=
  ((r.cache t).step (r.action t)).2

/-- What was shown before a moment. -/
def log (r : Run κ ν ε) (t : ℕ) : List (Observation κ ν ε) :=
  (List.range t).flatMap r.shown

/-- The key is dropped, alone or with all others. -/
def Drops (r : Run κ ν ε) (k : κ) (t : ℕ) : Prop :=
  (r.action t).Drops k

instance (r : Run κ ν ε) (k : κ) : DecidablePred (r.Drops k) := fun t =>
  inferInstanceAs (Decidable ((r.action t).Drops k))

/-- The lookup is polled for the first time. -/
def FirstPolled (r : Run κ ν ε) (l : LookupId) (t : ℕ) : Prop :=
  r.action t = .poll l ∧ (r.cache t).stage? l = some .fresh

/-- The lookup is polled for the first time, as a miss, and is attached to the cell. -/
def Joins (r : Run κ ν ε) (l : LookupId) (d : CellId) (t : ℕ) : Prop :=
  r.action t = .poll l ∧ (r.cache t).Joins l d

/-- The initialiser of the lookup begins. -/
def Begins (r : Run κ ν ε) (l : LookupId) (t : ℕ) : Prop :=
  .polled (.began l) ∈ r.shown t

/-- The lookup returns. -/
def Returns (r : Run κ ν ε) (l : LookupId) (outcome : Except ε ν) (t : ℕ) : Prop :=
  .polled (.returned l outcome) ∈ r.shown t

/-- A read of the stored values finds this value under the key. -/
def Reads (r : Run κ ν ε) (k : κ) (v : ν) (t : ℕ) : Prop :=
  .read k (some v) ∈ r.shown t

/-- The initialiser of the lookup is at work: it has been running, or it begins. -/
def Busy (r : Run κ ν ε) (l : LookupId) (t : ℕ) : Prop :=
  (∃ d, (r.cache t).stage? l = some (.running d)) ∨ r.Begins l t

/-- The initialiser of the lookup, at work for the cell, ends with this value. -/
def Succeeds (r : Run κ ν ε) (l : LookupId) (d : CellId) (v : ν) (t : ℕ) : Prop :=
  r.Busy l t ∧ r.Returns l (.ok v) t ∧ ((r.cache t).Joins l d ∨ (r.cache t).AttachedTo l d)

/-! ## Runs and lists of actions -/

/-- The run that carries out these actions one after the other, and then clears the cache again and
again. -/
def ofList (eviction : Eviction) (actions : List (Action κ ν ε)) : Run κ ν ε :=
  ⟨eviction, fun t => actions[t]?.getD .clear⟩

/-- The cache at a moment, and all that was shown before, come from carrying out the actions one
after the other. -/
theorem runActions_range (r : Run κ ν ε) (t : ℕ) :
    (Cache.empty r.eviction).runActions ((List.range t).map r.action) = (r.cache t, r.log t) := by
  induction t with
  | zero => rfl
  | succ t ih =>
    rw [List.range_succ, List.map_append, runActions_append, ih]
    simp only [List.map_cons, List.map_nil, runActions, log, List.range_succ, List.flatMap_append,
      List.flatMap_cons, List.flatMap_nil, List.append_nil]
    rfl

theorem log_succ (r : Run κ ν ε) (t : ℕ) : r.log (t + 1) = r.log t ++ r.shown t := by
  simp [log, List.range_succ]

/-- The caches of a run are reachable ones. -/
theorem reachable (r : Run κ ν ε) (t : ℕ) : Reachable r.eviction (r.cache t) := by
  induction t with
  | zero => exact .empty
  | succ t ih => exact .step (r.action t) ih

/-- What is done later does not matter for the cache at a moment. -/
theorem cache_congr {r r' : Run κ ν ε} {t : ℕ} (he : r.eviction = r'.eviction)
    (ha : ∀ s, s < t → r.action s = r'.action s) : r.cache t = r'.cache t := by
  induction t with
  | zero => rw [cache, cache, he]
  | succ t ih =>
    rw [cache, cache, ih fun s hs => ha s (by omega), ha t (by omega)]

/-- Every cache that can be reached is that of some run at some moment. -/
theorem exists_of_reachable {eviction : Eviction} {c : Cache κ ν ε}
    (h : Reachable eviction c) : ∃ (r : Run κ ν ε) (t : ℕ), r.eviction = eviction ∧ r.cache t = c := by
  induction h with
  | empty => exact ⟨⟨eviction, fun _ => .clear⟩, 0, rfl, rfl⟩
  | step action _ ih =>
    obtain ⟨r, t, he, rfl⟩ := ih
    -- the same run, but with this action at the moment that comes next
    refine ⟨⟨r.eviction, Function.update r.action t action⟩, t + 1, he, ?_⟩
    have hc : cache ⟨r.eviction, Function.update r.action t action⟩ t = r.cache t := by
      refine cache_congr (r := ⟨r.eviction, _⟩) rfl ?_
      intro s hs
      have hne : s ≠ t := by omega
      exact Function.update_of_ne hne ..
    rw [cache, hc]
    simp only [Function.update_self]

/-- The invariant holds at all times. -/
theorem sound (r : Run κ ν ε) (t : ℕ) : (r.cache t).Sound :=
  (r.reachable t).sound

/-- Every action of a run is a step. -/
theorem stepped (r : Run κ ν ε) (t : ℕ) :
    Stepped (r.cache t) (r.action t) (r.shown t) (r.cache (t + 1)) :=
  (r.sound t).stepped (r.action t)

/-- A poll goes in one of the ways listed. -/
theorem polled_of_action {r : Run κ ν ε} {l : LookupId} {t : ℕ} (h : r.action t = .poll l) :
    ∃ shown, Polled (r.cache t) l shown (r.cache (t + 1)) ∧ r.shown t = shown.map .polled := by
  have hs := r.stepped t
  rw [h] at hs
  exact hs.polled_of_poll

/-- What is shown of lookups is shown by a poll. -/
theorem polled_of_mem {r : Run κ ν ε} {t : ℕ} {event : CacheEvent ν ε}
    (h : .polled event ∈ r.shown t) :
    ∃ l shown, r.action t = .poll l ∧ Polled (r.cache t) l shown (r.cache (t + 1)) ∧
      r.shown t = shown.map .polled ∧ event ∈ shown := by
  have hs := r.stepped t
  generalize r.action t = action at hs ⊢
  generalize r.shown t = seen at h hs ⊢
  cases hs with
  | quiet _ _ hno => exact absurd h (hno event)
  | polled hp => exact ⟨_, _, rfl, hp, rfl, by simpa using h⟩
  | cancelled => cases h

/-! ## What lasts -/

variable {r : Run κ ν ε} {l l' : LookupId} {k : κ} {d : CellId} {v : ν} {s t : ℕ}

theorem key?_mono (hst : s ≤ t) (h : (r.cache s).key? l = some k) :
    (r.cache t).key? l = some k := by
  induction t, hst using Nat.le_induction with
  | base => exact h
  | succ t _ ih => exact (r.stepped t).key?_eq ih

/-- The key of a lookup was the same whenever the lookup was there. -/
theorem key?_of_le {stage : Stage} (hst : s ≤ t) (hs : (r.cache s).stage? l = some stage)
    (h : (r.cache t).key? l = some k) : (r.cache s).key? l = some k := by
  obtain ⟨lookup, hl, -⟩ := Option.map_eq_some_iff.mp hs
  have hk := key?_of_getElem? hl
  rw [hk, ← key?_mono hst hk, h]

theorem length_mono (hst : s ≤ t) : (r.cache s).cells.length ≤ (r.cache t).cells.length := by
  induction t, hst using Nat.le_induction with
  | base => exact Nat.le_refl _
  | succ t _ ih => exact Nat.le_trans ih (r.stepped t).length_le

/-- A value is never taken back. -/
theorem value_mono (hst : s ≤ t) (h : ((r.cache s).cellAt d).value = some v) :
    ((r.cache t).cellAt d).value = some v := by
  induction t, hst using Nat.le_induction with
  | base => exact h
  | succ t _ ih => exact (r.stepped t).value_after (r.sound t) ih

/-- A cell that has no value has had none before. -/
theorem value_none_of_le (hst : s ≤ t) (h : ((r.cache t).cellAt d).value = none) :
    ((r.cache s).cellAt d).value = none := by
  rw [Option.eq_none_iff_forall_ne_some] at h ⊢
  exact fun v hv => h v (value_mono hst hv)

/-- A lookup that was polled does not become fresh again. -/
theorem not_fresh_mono (hst : s ≤ t)
    (h : ∃ stage, (r.cache s).stage? l = some stage ∧ stage ≠ .fresh) :
    ∃ stage, (r.cache t).stage? l = some stage ∧ stage ≠ .fresh := by
  induction t, hst using Nat.le_induction with
  | base => exact h
  | succ t _ ih =>
    obtain ⟨stage, hs, hne⟩ := ih
    exact (r.stepped t).not_fresh hs (Or.inl hne)

/-- A cell that is not the pending one of a key any more never becomes it again. -/
theorem mapped_mono (hst : s ≤ t) (hd : d < (r.cache s).cells.length)
    (h : (r.cache t).pendingCell? k = some d) : (r.cache s).pendingCell? k = some d := by
  induction t, hst using Nat.le_induction with
  | base => exact h
  | succ t hst ih =>
    rcases (r.stepped t).mapped_before h with hold | ⟨rfl, -⟩
    · exact ih hold
    · -- the name of a cell that is made is new
      exact absurd (Nat.lt_of_lt_of_le hd (length_mono hst)) (Nat.lt_irrefl _)

/-- A lookup stays at its cell while it is neither polled nor cancelled. -/
theorem attachedTo_succ (h : (r.cache t).AttachedTo l d) (hpoll : r.action t ≠ .poll l)
    (hcancel : r.action t ≠ .cancel l) : (r.cache (t + 1)).AttachedTo l d := by
  rcases (r.stepped t).attached_after h with hnew | ⟨-, ha | ha⟩
  · exact hnew
  · exact absurd ha hpoll
  · exact absurd ha hcancel

/-- The others stay at their cells when a lookup is polled or cancelled. -/
theorem attachedTo_succ_of_ne (h : r.action t = .poll l' ∨ r.action t = .cancel l') (hne : l ≠ l')
    (ha : (r.cache t).AttachedTo l d) : (r.cache (t + 1)).AttachedTo l d := by
  apply attachedTo_succ ha
  · intro hpoll
    rcases h with h | h <;> rw [h] at hpoll
    · exact hne (Action.poll.inj hpoll).symm
    · cases hpoll
  · intro hcancel
    rcases h with h | h <;> rw [h] at hcancel
    · cases hcancel
    · exact hne (Action.cancel.inj hcancel).symm

/-! ## First polls and cells -/

theorem Joins.firstPolled (h : r.Joins l d t) : r.FirstPolled l t :=
  ⟨h.1, h.2.1⟩

/-- After its first poll a lookup is not fresh any more. -/
theorem FirstPolled.not_fresh (h : r.FirstPolled l s) (hst : s < t) :
    (r.cache t).stage? l ≠ some .fresh := by
  obtain ⟨stage, hs, hne⟩ :=
    not_fresh_mono (Nat.succ_le_of_lt hst) ((r.stepped s).not_fresh h.2 (Or.inr h.1))
  rw [hs]
  exact fun he => hne (Option.some_inj.mp he)

/-- A lookup is polled for the first time once at most. -/
theorem FirstPolled.unique (h : r.FirstPolled l s) (h' : r.FirstPolled l t) : s = t := by
  rcases Nat.lt_trichotomy s t with hlt | he | hlt
  · exact absurd h'.2 (h.not_fresh hlt)
  · exact he
  · exact absurd h.2 (h'.not_fresh hlt)

/-- Two lookups are not polled at the same moment. -/
theorem FirstPolled.eq_lookup (h : r.FirstPolled l t) (h' : r.FirstPolled l' t) : l = l' :=
  Action.poll.inj (h.1.symm.trans h'.1)

/-- A lookup joins one cell at most, and once. -/
theorem Joins.unique {d' : CellId} (h : r.Joins l d s) (h' : r.Joins l d' t) : s = t ∧ d = d' := by
  have hst := h.firstPolled.unique h'.firstPolled
  subst hst
  obtain ⟨-, k, hk, -, hd⟩ := h.2
  obtain ⟨-, k', hk', -, hd'⟩ := h'.2
  rw [hk, Option.some_inj] at hk'
  subst hk'
  exact ⟨rfl, hd.symm.trans hd'⟩

/-- An attached lookup has joined its cell, and has been attached to it ever since. -/
theorem exists_joins (h : (r.cache t).AttachedTo l d) :
    ∃ p, p < t ∧ r.Joins l d p ∧ ∀ s, p < s → s ≤ t → (r.cache s).AttachedTo l d := by
  induction t with
  | zero => rcases h with h | h <;> cases h
  | succ t ih =>
    rcases (r.stepped t).attached_before h with ha | ⟨ha, hj⟩
    · obtain ⟨p, hpt, hj, hall⟩ := ih ha
      refine ⟨p, by omega, hj, ?_⟩
      intro s hps hst
      rcases Nat.lt_or_eq_of_le hst with hlt | rfl
      · exact hall s hps (by omega)
      · exact h
    · refine ⟨t, by omega, ⟨ha, hj⟩, ?_⟩
      intro s hps hst
      obtain rfl : s = t + 1 := by omega
      exact h

/-- A lookup that was attached to a cell after it has joined it was so all the time. -/
theorem Joins.attached_of_le (hj : r.Joins l d s) {u : ℕ} (hsu : s < u) (hut : u ≤ t)
    (h : (r.cache t).AttachedTo l d) : (r.cache u).AttachedTo l d := by
  obtain ⟨p, -, hj', hall⟩ := exists_joins h
  rw [← (hj.unique hj').1] at hall
  exact hall u hsu hut

/-- A lookup is attached to no other cell than the one it has joined. -/
theorem Joins.eq_of_attached {d' : CellId} (hj : r.Joins l d s)
    (h : (r.cache t).AttachedTo l d') : s < t ∧ d = d' := by
  obtain ⟨p, hpt, hj', -⟩ := exists_joins h
  obtain ⟨rfl, rfl⟩ := hj.unique hj'
  exact ⟨hpt, rfl⟩

/-- The cell that a lookup joins is the pending one of its key then, or is made then. -/
theorem Joins.mapped (h : r.Joins l d t) (hk : (r.cache t).key? l = some k) :
    ((r.cache t).prepare l).pendingCell? k = some d :=
  ((joins_iff h.2.1 hk).mp h.2).2

/-- The cell that a lookup joins has no value then. -/
theorem Joins.value (h : r.Joins l d t) : ((r.cache t).cellAt d).value = none := by
  obtain ⟨-, k, hk, -⟩ := h.2
  exact (r.sound t).value_of_prepare (h.mapped hk)

theorem Joins.lt_length (h : r.Joins l d t) : d < (r.cache (t + 1)).cells.length := by
  obtain ⟨hf, k, hk, -⟩ := h.2
  have hlt := ((r.sound t).prepare l).mapped_lt (h.mapped hk)
  obtain ⟨shown, hp, -⟩ := polled_of_action h.1
  rcases hp.shift with ⟨-, hne⟩ | ⟨stage, e, cell, -, hsh⟩
  · exact absurd hf hne
  · rw [hsh.length]
    exact hlt

/-! ## Pending cells through time -/

/-- A pending cell stays the pending one from one moment to a later one, if at both a lookup is
attached to it, which has no value then, and the key is not dropped in between. -/
theorem mapped_of_le (hst : s ≤ t) (hm : (r.cache s).pendingCell? k = some d)
    (has : (r.cache s).AttachedTo l d) (hat : (r.cache t).AttachedTo l d)
    (hv : ((r.cache t).cellAt d).value = none) (hd : ∀ u, s ≤ u → u < t → ¬ r.Drops k u) :
    (r.cache t).pendingCell? k = some d := by
  obtain ⟨p, hps, hj, -⟩ := exists_joins has
  induction t, hst using Nat.le_induction with
  | base => exact hm
  | succ t hst ih =>
    have hle : t ≤ t + 1 := Nat.le_succ t
    have hat' := hj.attached_of_le (Nat.lt_of_lt_of_le hps hst) hle hat
    have hm' := ih hat' (value_none_of_le hle hv) fun u hsu hut => hd u hsu (by omega)
    exact (r.stepped t).mapped_after (r.sound t) hm' hat hv (hd t hst (Nat.lt_succ_self t))

/-- The cell that a lookup joined stays the pending one of its key, as long as the lookup is
attached to it without a value, until the key is dropped. -/
theorem mapped_of_attached (hj : r.Joins l d s) (hk : (r.cache s).key? l = some k) (hst : s < t)
    (ha : (r.cache t).AttachedTo l d) (hv : ((r.cache t).cellAt d).value = none)
    (hd : ∀ u, s ≤ u → u < t → ¬ r.Drops k u) : (r.cache t).pendingCell? k = some d := by
  have ha' := hj.attached_of_le (Nat.lt_succ_self s) hst ha
  obtain ⟨shown, hp, -⟩ := polled_of_action hj.1
  have hm := hp.mapped_after (r.sound s) (hj.mapped hk) ha' (value_none_of_le hst hv)
  exact mapped_of_le hst hm ha' ha hv fun u hsu hut => hd u (by omega) hut

/-- A cell that is the pending one of a key when a lookup comes to it was the pending one at every
moment before at which it was there. -/
theorem mapped_of_prepare (hst : s ≤ t) (hlt : d < (r.cache s).cells.length)
    (h : ((r.cache t).prepare l).pendingCell? k = some d) : (r.cache s).pendingCell? k = some d := by
  rcases pendingCell?_of_prepare h with hm | ⟨hd, -⟩
  · exact mapped_mono hst hlt hm
  · -- the cell would be made at the later moment
    rw [hd] at hlt
    exact absurd (Nat.lt_of_lt_of_le hlt (length_mono hst)) (Nat.lt_irrefl _)

/-- Lookups that join one cell look for one key, the later one as the earlier one. -/
theorem Joins.eq_key_of_lt {k' : κ} (hj : r.Joins l d s) (hj' : r.Joins l' d t) (hst : s < t)
    (hk : (r.cache s).key? l = some k) (hk' : (r.cache t).key? l' = some k') : k = k' := by
  have hm := mapped_of_prepare (Nat.succ_le_of_lt hst) hj.lt_length (hj'.mapped hk')
  obtain ⟨shown, hp, -⟩ := polled_of_action hj.1
  exact ((r.sound s).prepare l).mapped_inj (hj.mapped hk) (hp.keys.pendingCell?_prepare hm)

/-- All lookups that join a cell look for the same key. -/
theorem Joins.key?_eq (hj : r.Joins l d s) (hj' : r.Joins l' d t)
    (hk : (r.cache s).key? l = some k) : (r.cache t).key? l' = some k := by
  obtain ⟨-, k', hk', -⟩ := hj'.2
  rcases Nat.lt_trichotomy s t with hlt | rfl | hlt
  · rw [hk', hj.eq_key_of_lt hj' hlt hk hk']
  · rw [← hj.firstPolled.eq_lookup hj'.firstPolled, hk]
  · rw [hk', hj'.eq_key_of_lt hj hlt hk' hk]

/-- Who has joined a cell that is the pending one of a key at some moment was first polled after all
drops of the key before. -/
theorem Joins.lt_of_drops {u : ℕ} (hj : r.Joins l d s)
    (h : ((r.cache t).prepare l').pendingCell? k = some d) (hut : u < t) (hd : r.Drops k u) :
    u < s := by
  by_contra hus
  have hne : s ≠ u := by
    rintro rfl
    rw [Drops, hj.1] at hd
    exact hd.elim
  have hsu : s < u := by omega
  have hlen : ∀ {i}, s < i → d < (r.cache i).cells.length := fun hi =>
    Nat.lt_of_lt_of_le hj.lt_length (length_mono hi)
  -- the cell was there at the drop, so it is not the pending one any more
  have hm : (r.cache (u + 1)).pendingCell? k = some d :=
    mapped_of_prepare hut (hlen (by omega)) h
  rw [((r.stepped u).dropped hd).1] at hm
  cases hm

/-- Two lookups of one key join the same cell if the first is still attached to it without a value
when the second comes, and the key was not dropped in between. -/
theorem Joins.eq_of_attached_of_not_drops {d' : CellId} (hj : r.Joins l d s)
    (hj' : r.Joins l' d' t) (hst : s < t) (hk : (r.cache s).key? l = some k)
    (hk' : (r.cache t).key? l' = some k) (ha : (r.cache t).AttachedTo l d)
    (hv : ((r.cache t).cellAt d).value = none) (hd : ∀ u, s ≤ u → u < t → ¬ r.Drops k u) :
    d = d' := by
  have hm := pendingCell?_prepare_of_some (l := l') (mapped_of_attached hj hk hst ha hv hd)
  rw [hj'.mapped hk', Option.some_inj] at hm
  exact hm.symm

/-! ## Values through time -/

/-- Only a lookup that is polled returns. -/
theorem Returns.action {outcome : Except ε ν} (h : r.Returns l outcome t) :
    r.action t = .poll l := by
  obtain ⟨x, shown, ha, hp, -, hx⟩ := polled_of_mem h
  cases outcome with
  | ok value => rw [(hp.of_returned_ok hx).1, ha]
  | error error => rw [(hp.of_returned_error hx).1, ha]

/-- Only one lookup returns at a moment. -/
theorem Returns.eq_lookup {outcome outcome' : Except ε ν} (h : r.Returns l outcome t)
    (h' : r.Returns l' outcome' t) : l = l' :=
  Action.poll.inj (h.action.symm.trans h'.action)

/-- An initialiser begins when its lookup is polled and gets the turn. -/
theorem Begins.turn (h : r.Begins l t) :
    r.action t = .poll l ∧ ∃ d, Turn (r.cache t) l d [.began l] := by
  obtain ⟨x, shown, ha, hp, -, hx⟩ := polled_of_mem h
  obtain ⟨rfl, hd⟩ := hp.of_began hx
  exact ⟨ha, hd⟩

/-- Who has the turn and returns a value has run the initialiser to its success. -/
theorem succeeds_of_turn {begun : List (CacheEvent ν ε)} (ht : Turn (r.cache t) l d begun)
    (hs : r.shown t = (begun ++ [CacheEvent.returned l (.ok v)]).map .polled) :
    r.Succeeds l d v t := by
  refine ⟨?_, ?_, ht.joins_or_attached⟩
  · cases ht with
    | taken => exact Or.inr (by simp [Begins, hs])
    | handed => exact Or.inr (by simp [Begins, hs])
    | kept h => exact Or.inl ⟨d, h⟩
  · simp [Returns, hs]

/-- A lookup whose initialiser succeeds has the turn at its cell and fills it. -/
theorem Succeeds.turn (h : r.Succeeds l d v t) :
    ∃ begun, Turn (r.cache t) l d begun ∧ ((r.cache (t + 1)).cellAt d).value = some v := by
  obtain ⟨hb, hret, hu⟩ := h
  obtain ⟨x, shown, -, hp, hs, hx⟩ := polled_of_mem hret
  obtain ⟨rfl, hcase⟩ := hp.of_returned_ok hx
  have hbusy : (∃ e, (r.cache t).stage? l = some (.running e)) ∨ .began l ∈ shown := by
    rcases hb with hb | hb
    · exact Or.inl hb
    · exact Or.inr (by simpa [Begins, hs] using hb)
  -- who is answered at once, or has waited for the value, is not at work
  rcases hcase with ⟨rfl, hf, -⟩ | ⟨rfl, e, hw, -⟩ | ⟨e, begun, ht, -, hval⟩
  · rcases hbusy with ⟨e, hr⟩ | hb
    · rw [hf] at hr
      cases hr
    · simp at hb
  · rcases hbusy with ⟨e', hr⟩ | hb
    · rw [hw] at hr
      cases hr
    · simp at hb
  · rw [ht.eq_of_uses hu]
    exact ⟨begun, ht, hval⟩

/-- The value of a cell was found by an initialiser. -/
theorem exists_succeeds (h : ((r.cache t).cellAt d).value = some v) :
    ∃ l s, s < t ∧ r.Succeeds l d v s := by
  induction t with
  | zero => cases h
  | succ t ih =>
    rcases (r.stepped t).value_before (r.sound t) h with hold | ⟨l, begun, -, ht, hs⟩
    · obtain ⟨l, s, hst, hsucc⟩ := ih hold
      exact ⟨l, s, by omega, hsucc⟩
    · exact ⟨l, t, by omega, succeeds_of_turn ht hs⟩

/-- A cell succeeds once. -/
theorem Succeeds.not_lt {v' : ν} (h : r.Succeeds l d v s) (h' : r.Succeeds l' d v' t) :
    ¬ s < t := by
  intro hlt
  obtain ⟨begun, -, hval⟩ := h.turn
  obtain ⟨begun', ht', -⟩ := h'.turn
  -- whoever comes second finds the value there and has no turn
  have hv := value_mono (Nat.succ_le_of_lt hlt) hval
  rw [ht'.value (r.sound t)] at hv
  cases hv

/-- At most one initialiser succeeds for a cell. -/
theorem Succeeds.unique {v' : ν} (h : r.Succeeds l d v s) (h' : r.Succeeds l' d v' t) :
    l = l' ∧ v = v' ∧ s = t := by
  have hst := h.not_lt h'
  have hts := h'.not_lt h
  obtain rfl : s = t := by omega
  obtain ⟨begun, -, hval⟩ := h.turn
  obtain ⟨begun', -, hval'⟩ := h'.turn
  rw [hval, Option.some_inj] at hval'
  exact ⟨h.2.1.eq_lookup h'.2.1, hval', rfl⟩

/-- An initialiser that succeeds for a cell does so no earlier than anybody joins the cell. -/
theorem Succeeds.le_of_joins (h : r.Succeeds l d v t) (hj : r.Joins l' d s) : s ≤ t := by
  obtain ⟨begun, -, hval⟩ := h.turn
  rw [← Nat.not_lt]
  intro hts
  have hv := value_mono (Nat.succ_le_of_lt hts) hval
  rw [hj.value] at hv
  cases hv

/-- A lookup whose initialiser succeeds has joined the cell. -/
theorem Succeeds.exists_joins (h : r.Succeeds l d v t) : ∃ s, s ≤ t ∧ r.Joins l d s := by
  rcases h.2.2 with hj | ha
  · exact ⟨t, Nat.le_refl t, h.2.1.action, hj⟩
  · obtain ⟨s, hst, hj, -⟩ := Run.exists_joins ha
    exact ⟨s, Nat.le_of_lt hst, hj⟩

/-- A lookup that returns a value is answered at its first poll by a stored value, or it has joined
a cell and returns the value that an initialiser found for this cell. -/
theorem Returns.ok_cases (h : r.Returns l (.ok v) t) :
    (r.FirstPolled l t ∧
        ∃ k, (r.cache t).key? l = some k ∧ (r.cache t).stored.find? k = some v) ∨
      ∃ d p, p ≤ t ∧ r.Joins l d p ∧ ∃ l' s, s ≤ t ∧ r.Succeeds l' d v s := by
  have ha := h.action
  obtain ⟨x, shown, -, hp, hs, hx⟩ := polled_of_mem h
  obtain ⟨rfl, hcase⟩ := hp.of_returned_ok hx
  rcases hcase with ⟨-, hf, hstored⟩ | ⟨-, d, hw, hv⟩ | ⟨d, begun, ht, rfl, -⟩
  · exact Or.inl ⟨⟨ha, hf⟩, hstored⟩
  · right
    obtain ⟨p, hpt, hj, -⟩ := exists_joins (Or.inl hw)
    obtain ⟨l', s, hst, hsucc⟩ := exists_succeeds hv
    exact ⟨d, p, Nat.le_of_lt hpt, hj, l', s, Nat.le_of_lt hst, hsucc⟩
  · right
    have hsucc := succeeds_of_turn ht hs
    obtain ⟨p, hpt, hj⟩ := hsucc.exists_joins
    exact ⟨d, p, hpt, hj, l, t, Nat.le_refl t, hsucc⟩

/-- The value that a lookup returns after it has joined a cell was found for this cell. -/
theorem Returns.of_joins (h : r.Returns l (.ok v) t) (hj : r.Joins l d s) :
    ∃ l' u, u ≤ t ∧ r.Succeeds l' d v u := by
  rcases h.ok_cases with ⟨hf, k, hk, hv⟩ | ⟨d', p, -, hj', hsucc⟩
  · -- the first poll would have found the stored value
    obtain rfl := hj.firstPolled.unique hf
    obtain ⟨-, k', hk', hn, -⟩ := hj.2
    rw [hk, Option.some_inj] at hk'
    rw [← hk', hv] at hn
    cases hn
  · rw [(hj.unique hj').2]
    exact hsucc

end Run

end Cache

end RemoteTable
