import Mathlib.Tactic.IntervalCases
import RemoteTable.Proofs.Cache.Counts
import RemoteTable.Proofs.Cache.PendingCells
import RemoteTable.Proofs.Cache.Uses

/-!
# Every key is worked on once

A key is known while it has a stored value or a pending cell (`Cache.Known`). As long as nothing fails,
is cancelled, dropped or evicted (`Run.Calm`), every pending cell has a lookup that runs its initialiser
(`Cache.AtWork`), and a key that is known stays known. Then an initialiser begins exactly in the polls
that learn a key (`Polled.countP_isBeginning`). So there are as many begun initialisers as keys that
were looked up (`Run.Calm.accounted`), and as stored values and pending cells together
(`Run.ncard_known`).
-/

namespace RemoteTable

/-- Whether an initialiser begins. -/
def CacheEvent.isBeginning {ν ε : Type} : CacheEvent ν ε → Bool
  | .began _ => true
  | .returned _ _ => false

namespace Cache

variable {κ ν ε : Type} [DecidableEq κ]

/-- Whether an initialiser is seen to begin. -/
def Observation.isBeginning : Observation κ ν ε → Bool
  | .polled event => event.isBeginning
  | .read _ _ => false

variable {c : Cache κ ν ε} {l : LookupId} {k : κ}

/-! ## Keys that are known -/

/-- A key is known while it has a stored value or a pending cell. -/
def Known (c : Cache κ ν ε) (k : κ) : Prop :=
  (∃ v, c.stored.find? k = some v) ∨ ∃ d, c.pendingCell? k = some d

/-- Whoever has the turn runs the initialiser, and the turn of a pending cell is never free. -/
structure AtWork (c : Cache κ ν ε) : Prop where
  /-- Whoever has the turn runs the initialiser. -/
  running : ∀ {l d}, (c.cellAt d).owner = some l → c.stage? l = some (.running d)
  /-- The turn of a pending cell is not free. -/
  owner : ∀ {k d}, c.pendingCell? k = some d → (c.cellAt d).owner ≠ none

variable {c' : Cache κ ν ε} {d : CellId} {j : κ} {begun shown : List (CacheEvent ν ε)}

/-- In an empty cache there is no turn that could lie idle. -/
theorem atWork_empty (eviction : Eviction) : (empty eviction : Cache κ ν ε).AtWork where
  running h := by cases h
  owner h := by cases h

/-- Preparing makes the key of a lookup known that has not been polled yet, and no other. -/
theorem known_prepare_iff :
    (c.prepare l).Known k ↔ c.Known k ∨ c.stage? l = some .fresh ∧ c.key? l = some k := by
  rcases prepare_cases c l with he | ⟨key, hs, hk, hn, hnone, hd, he⟩
  · rw [he, iff_self_or]
    rintro ⟨hs, hk⟩
    -- a key that is looked up for the first time is stored, or has got a pending cell
    by_cases hv : ∃ v, c.stored.find? k = some v
    · exact .inl hv
    · have hn : c.stored.find? k = none :=
        Option.eq_none_iff_forall_ne_some.mpr fun v h => hv ⟨v, h⟩
      rw [prepare_of_fresh hs hk hn] at he
      refine .inr ⟨(c.attach k).2, ?_⟩
      rw [← he, pendingCell?_attach, Function.update_self, he]
  · have hpend : (c.prepare l).pendingCell? = Function.update c.pendingCell? key
        (some (c.attach key).2) := by rw [he, pendingCell?_attach]
    rw [Known, Known, stored_prepare, hpend, hs, hk, Option.some_inj, Function.update_apply]
    by_cases hkey : k = key
    · subst hkey
      simp
    · simp [hkey, Ne.symm hkey]

/-! ## Polls while everybody is at work -/

/-- A lookup that has the turn has come just now, with a key that was not known, or has been running
its initialiser. -/
theorem Turn.atWork_cases (ht : Turn c l d begun) (hw : c.AtWork) :
    (begun = [.began l] ∧ c.stage? l = some .fresh ∧
        ∃ k, c.key? l = some k ∧ ¬ c.Known k) ∨
      (begun = [] ∧ c.stage? l = some (.running d)) := by
  cases ht with
  | @taken key hs hk hn hm ho =>
    refine .inl ⟨rfl, hs, key, hk, ?_⟩
    rintro (⟨v, hv⟩ | ⟨e, he⟩)
    · rw [hn] at hv
      cases hv
    · -- the turn of a cell that was pending before is not free
      have hde : some e = some d := by rw [← pendingCell?_prepare_of_some he, hm]
      rw [Option.some_inj] at hde
      rw [hde] at he
      exact hw.owner he ho
  | handed hs ho =>
    rw [hw.running ho] at hs
    cases hs
  | kept hs => exact .inr ⟨rfl, hs⟩

/-- A change of one lookup and its cell leaves everybody at work. -/
theorem AtWork.shift {s : Stage} {cell : Cell ν} (hw : c.AtWork)
    (hsh : Shift (c.prepare l) c' l s d cell)
    (hl : ∀ e, c.stage? l = some (.running e) → e = d)
    (hrun : ∀ x, cell.owner = some x →
      x = l ∧ s = .running d ∨ x ≠ l ∧ (c.cellAt d).owner = some x)
    (hpend : ∀ k e, c'.pendingCell? k = some e →
      e ≠ d ∧ c.pendingCell? k = some e ∨ e = d ∧ cell.owner ≠ none) : c'.AtWork where
  running := by
    intro x e ho
    by_cases he : e = d
    · subst he
      rw [hsh.cellAt_self] at ho
      rcases hrun x ho with ⟨rfl, rfl⟩ | ⟨hne, hold⟩
      · exact hsh.stage?_self
      · rw [hsh.stage?_of_ne hne, stage?_prepare]
        exact hw.running hold
    · rw [hsh.cellAt_of_ne he, cellAt_prepare] at ho
      have hstage := hw.running ho
      have hne : x ≠ l := by
        rintro rfl
        exact he (hl e hstage)
      rw [hsh.stage?_of_ne hne, stage?_prepare]
      exact hstage
  owner := by
    intro k e hm
    rcases hpend k e hm with ⟨hne, hold⟩ | ⟨rfl, ho⟩
    · rw [hsh.cellAt_of_ne hne, cellAt_prepare]
      exact hw.owner hold
    · rw [hsh.cellAt_self]
      exact ho

/-- A lookup that ends leaves everybody at work, if it did not run its initialiser and changes no
cell. -/
theorem AtWork.ended (hw : c.AtWork) (hp : c.prepare l = c)
    (hsh : Shift c c' l .ended d (c.cellAt d)) (hl : ∀ e, c.stage? l ≠ some (.running e))
    (hpend : c'.pendingCell? = c.pendingCell?) : c'.AtWork := by
  rw [← hp] at hsh
  refine hw.shift hsh (fun e he => absurd he (hl e)) ?_ ?_
  · intro x ho
    rw [cellAt_prepare] at ho
    refine .inr ⟨?_, ho⟩
    rintro rfl
    exact hl d (hw.running ho)
  · intro k e hm
    rw [hpend] at hm
    by_cases he : e = d
    · subst he
      rw [cellAt_prepare]
      exact .inr ⟨rfl, hw.owner hm⟩
    · exact .inl ⟨he, hm⟩

/-- Preparing makes no other cell than the one that the lookup comes to. -/
theorem pendingCell?_of_prepare_of_ne {e : CellId} (hk : c.key? l = some j)
    (hd : (c.prepare l).pendingCell? j = some d) (hne : e ≠ d)
    (hm : (c.prepare l).pendingCell? k = some e) : c.pendingCell? k = some e := by
  rcases pendingCell?_of_prepare hm with hold | ⟨-, -, hk', -⟩
  · exact hold
  · rw [hk, Option.some_inj] at hk'
    rw [← hk', hd, Option.some_inj] at hm
    exact absurd hm.symm hne

/-- A pending cell other than the one of the poll was there before. -/
theorem Turn.pendingCell?_of_ne {e : CellId} (ht : Turn c l d begun) (hne : e ≠ d)
    (hm : (c.prepare l).pendingCell? k = some e) : c.pendingCell? k = some e := by
  have hkept : c.stage? l ≠ some .fresh → c.pendingCell? k = some e := by
    intro hs
    rw [prepare_of_not_fresh hs] at hm
    exact hm
  cases ht with
  | taken _ hk _ hd => exact pendingCell?_of_prepare_of_ne hk hd hne hm
  | handed hs => exact hkept (by rw [hs]; exact nofun)
  | kept hs => exact hkept (by rw [hs]; exact nofun)

/-- A lookup that has the turn runs its initialiser at no other cell. -/
theorem Turn.eq_of_running {e : CellId} (ht : Turn c l d begun)
    (hr : c.stage? l = some (.running e)) : e = d :=
  ht.eq_of_attached (.inr hr)

/-- A lookup that fills its cell leaves everybody at work, if the cell is not a pending one any
more. -/
theorem Turn.atWork_fill {value : ν} (ht : Turn c l d begun) (hw : c.AtWork)
    (hsh : Shift (c.prepare l) c' l .ended d ((c.cellAt d).fill value))
    (hpend : ∀ k e, c'.pendingCell? k = some e →
      e ≠ d ∧ (c.prepare l).pendingCell? k = some e) : c'.AtWork := by
  refine hw.shift hsh (fun e => ht.eq_of_running) ?_ ?_
  · intro x ho
    cases ho
  · intro k e hm
    obtain ⟨hne, hm'⟩ := hpend k e hm
    exact .inl ⟨hne, ht.pendingCell?_of_ne hne hm'⟩

/-- A poll in which nothing fails leaves everybody at work. -/
theorem Polled.atWork (hp : Polled c l shown c') (h : c.Sound) (hw : c.AtWork)
    (hok : ∀ error, .returned l (.error error) ∉ shown) : c'.AtWork := by
  have hfresh : c.stage? l = some .fresh → ∀ e, c.stage? l ≠ some (.running e) := by
    intro hs e hr
    rw [hs] at hr
    cases hr
  cases hp with
  | idle => exact hw
  | hit hs hk hv hsh hpend =>
    exact hw.ended (prepare_of_stored hk hv) hsh (hfresh hs) hpend
  | @receive _ d _ _ hs _ _ hsh hpend =>
    have hrun : ∀ e, c.stage? l ≠ some (.running e) := by
      intro e hr
      rw [hs] at hr
      cases hr
    exact hw.ended (prepare_of_not_fresh (by rw [hs]; exact nofun)) hsh hrun hpend
  | @wait key d _ hs hk _ hd ho hsh hpend =>
    refine hw.shift hsh (fun e he => absurd he (hfresh hs e)) ?_ ?_
    · intro x hx
      refine .inr ⟨?_, hx⟩
      rintro rfl
      exact hfresh hs d (hw.running hx)
    · intro k e hm
      rw [hpend] at hm
      by_cases he : e = d
      · exact .inr ⟨he, ho⟩
      · exact .inl ⟨he, pendingCell?_of_prepare_of_ne hk hd he hm⟩
  | @begin d _ ht hsh hpend =>
    refine hw.shift hsh (fun e => ht.eq_of_running) ?_ ?_
    · intro x hx
      exact .inl ⟨(Option.some_inj.mp hx).symm, rfl⟩
    · intro k e hm
      rw [hpend] at hm
      by_cases he : e = d
      · exact .inr ⟨he, Option.some_ne_none l⟩
      · exact .inl ⟨he, ht.pendingCell?_of_ne he hm⟩
  | @store _ key d _ _ ht _ hd hsh hpend =>
    refine ht.atWork_fill hw hsh fun k e hm => ?_
    rw [hpend, Function.update_apply] at hm
    split at hm
    case isTrue => cases hm
    case isFalse hne =>
      refine ⟨?_, hm⟩
      rintro rfl
      exact hne ((h.prepare l).mapped_inj hm hd)
  | @orphan _ key d _ _ ht hk hd hsh hpend =>
    refine ht.atWork_fill hw hsh fun k e hm => ?_
    rw [hpend] at hm
    refine ⟨?_, hm⟩
    rintro rfl
    rw [ht.key_eq_of_mapped h hk hm] at hm
    exact hd hm
  | @forget _ _ _ error => exact absurd List.mem_concat_self (hok error)
  | @fail _ _ _ error => exact absurd List.mem_concat_self (hok error)

/-! ## Keys become known when they are looked up -/

/-- In a poll in which nothing fails and nothing is evicted the lookup's key becomes known, if it was
polled for the first time, and no other key; and none is forgotten. -/
theorem Polled.known_iff (hp : Polled c l shown c') (he : c.eviction = .never)
    (hok : ∀ error, .returned l (.error error) ∉ shown) :
    c'.Known k ↔ c.Known k ∨ c.stage? l = some .fresh ∧ c.key? l = some k := by
  rw [← known_prepare_iff, Known, Known, stored_prepare]
  cases hp with
  | idle hs => rw [prepare_of_not_fresh hs]
  | hit _ hk hv _ hpend hst =>
    rw [prepare_of_stored hk hv, hpend, hst, RecencyList.find?_touch]
  | receive hs _ _ _ hpend hst =>
    rw [prepare_of_not_fresh (by rw [hs]; exact nofun), hpend, hst]
  | wait _ _ _ _ _ _ hpend hst => rw [hpend, hst]
  | begin _ _ hpend hst => rw [hpend, hst]
  | orphan _ _ _ _ hpend hst => rw [hpend, hst]
  | @store _ key d value _ _ _ hd _ hpend hst =>
    -- the value of the key takes the place of its pending cell
    rw [hpend, hst, he, RecencyList.find?_put_never, Function.update_apply, Function.update_apply]
    by_cases hkey : k = key
    · simp [hkey, hd]
    · simp [hkey]
  | @forget _ _ _ error => exact absurd List.mem_concat_self (hok error)
  | @fail _ _ _ error => exact absurd List.mem_concat_self (hok error)

/-- A poll of a lookup learns its key if it is the first one of the lookup and the key is not known. -/
def Learns (c : Cache κ ν ε) (l : LookupId) : Prop :=
  c.stage? l = some .fresh ∧ ∃ k, c.key? l = some k ∧ ¬ c.Known k

/-- Only a first poll can make a key known. -/
theorem not_learns_of_not_fresh (h : c.stage? l ≠ some .fresh) : ¬ c.Learns l :=
  fun hl => h hl.1

theorem not_learns_of_known (hk : c.key? l = some k) (h : c.Known k) : ¬ c.Learns l := by
  rintro ⟨-, j, hj, hn⟩
  rw [hk, Option.some_inj] at hj
  rw [hj] at h
  exact hn h

/-- While everybody is at work, the initialiser of a lookup that has the turn begins exactly if the
lookup's key is learnt. -/
theorem Turn.countP_isBeginning (ht : Turn c l d begun) (hw : c.AtWork) :
    begun.countP CacheEvent.isBeginning = 1 ∧ c.Learns l ∨
      begun.countP CacheEvent.isBeginning = 0 ∧ ¬ c.Learns l := by
  rcases ht.atWork_cases hw with ⟨rfl, hs, k, hk, hn⟩ | ⟨rfl, hr⟩
  · exact .inl ⟨rfl, hs, k, hk, hn⟩
  · exact .inr ⟨rfl, not_learns_of_not_fresh (by rw [hr]; exact nofun)⟩

/-- While everybody is at work, an initialiser begins exactly in the polls that learn a key. -/
theorem Polled.countP_isBeginning (hp : Polled c l shown c') (hw : c.AtWork) :
    shown.countP CacheEvent.isBeginning = 1 ∧ c.Learns l ∨
      shown.countP CacheEvent.isBeginning = 0 ∧ ¬ c.Learns l := by
  have hreturns : ∀ {outcome : Except ε ν} {begun : List (CacheEvent ν ε)},
      (begun ++ [CacheEvent.returned l outcome]).countP CacheEvent.isBeginning =
        begun.countP CacheEvent.isBeginning := by
    intro outcome begun
    rw [List.countP_append]
    rfl
  cases hp with
  | idle hs => exact .inr ⟨rfl, not_learns_of_not_fresh hs⟩
  | hit _ hk hv => exact .inr ⟨rfl, not_learns_of_known hk (.inl ⟨_, hv⟩)⟩
  | @wait key d _ hs hk _ hd ho =>
    -- the turn of a cell that is made now would be free
    have hold : c.pendingCell? key = some d := by
      rcases pendingCell?_of_prepare hd with hold | ⟨rfl, -⟩
      · exact hold
      · rw [cellAt_of_length_le (Nat.le_refl _)] at ho
        exact absurd rfl ho
    exact .inr ⟨rfl, not_learns_of_known hk (.inr ⟨d, hold⟩)⟩
  | receive hs => exact .inr ⟨rfl, not_learns_of_not_fresh (by rw [hs]; exact nofun)⟩
  | begin ht => exact ht.countP_isBeginning hw
  | store ht =>
    rw [hreturns]
    exact ht.countP_isBeginning hw
  | orphan ht =>
    rw [hreturns]
    exact ht.countP_isBeginning hw
  | forget ht =>
    rw [hreturns]
    exact ht.countP_isBeginning hw
  | fail ht =>
    rw [hreturns]
    exact ht.countP_isBeginning hw

/-! ## Actions that drop nothing -/

/-- A quiet action that drops nothing leaves the known keys and everybody at work. -/
theorem Quiet.known_iff {action : Action κ ν ε} (q : Quiet c c' action)
    (hd : ∀ k, ¬ action.Drops k) : c'.Known k ↔ c.Known k := by
  constructor
  · rintro (⟨v, hv⟩ | ⟨d, hm⟩)
    · exact .inl ⟨v, q.stored hv⟩
    · exact .inr ⟨d, q.pending hm⟩
  · rintro (⟨v, hv⟩ | ⟨d, hm⟩)
    · exact .inl ⟨v, q.stored_kept (hd k) hv⟩
    · exact .inr ⟨d, q.pending_kept (hd k) hm⟩

/-- What drops nothing leaves everybody at work. -/
theorem Quiet.atWork {action : Action κ ν ε} (q : Quiet c c' action) (hw : c.AtWork) :
    c'.AtWork where
  running ho := by
    rw [q.cell] at ho
    exact q.stage (hw.running ho)
  owner hm := by
    rw [q.cell]
    exact hw.owner (q.pending hm)

omit [DecidableEq κ] in
/-- Nothing begins where no event is seen. -/
theorem countP_isBeginning_eq_zero {seen : List (Observation κ ν ε)}
    (h : ∀ event, .polled event ∉ seen) : seen.countP Observation.isBeginning = 0 := by
  rw [List.countP_eq_zero]
  intro o ho
  cases o with
  | polled event => exact absurd ho (h event)
  | read => exact Bool.false_ne_true

namespace Run

variable {r : Run κ ν ε} {s t : ℕ}

/-! ## Begun initialisers -/

/-- Before this moment nothing has failed, and nothing was cancelled, dropped or evicted. -/
structure Calm (r : Run κ ν ε) (t : ℕ) : Prop where
  /-- Values are dropped only on demand. -/
  eviction : r.eviction = .never
  /-- No initialiser has failed. -/
  no_error : ∀ {s l error}, s < t → ¬ r.Returns l (.error error) s
  /-- No lookup was cancelled. -/
  no_cancel : ∀ {s l}, s < t → r.action s ≠ .cancel l
  /-- No key was dropped. -/
  no_drop : ∀ {s k}, s < t → ¬ r.Drops k s

/-- A calm run was calm before. -/
theorem Calm.mono (h : r.Calm t) (hst : s ≤ t) : r.Calm s where
  eviction := h.eviction
  no_error hs := h.no_error (by omega)
  no_cancel hs := h.no_cancel (by omega)
  no_drop hs := h.no_drop (by omega)

/-- The keys of the lookups that were polled before a moment. -/
def lookedUp (r : Run κ ν ε) (t : ℕ) : Set κ :=
  {k | ∃ l s, s < t ∧ r.FirstPolled l s ∧ (r.cache s).key? l = some k}

/-- A step adds the key of a lookup that it polls for the first time, and no other one. -/
theorem mem_lookedUp_succ :
    k ∈ r.lookedUp (t + 1) ↔
      k ∈ r.lookedUp t ∨ ∃ l, r.FirstPolled l t ∧ (r.cache t).key? l = some k := by
  constructor
  · rintro ⟨l, s, hs, hf, hk⟩
    rcases Nat.lt_succ_iff_lt_or_eq.mp hs with hlt | rfl
    · exact .inl ⟨l, s, hlt, hf, hk⟩
    · exact .inr ⟨l, hf, hk⟩
  · rintro (⟨l, s, hs, hf, hk⟩ | ⟨l, hf, hk⟩)
    · exact ⟨l, s, by omega, hf, hk⟩
    · exact ⟨l, t, by omega, hf, hk⟩

/-- Only finitely many keys were looked up so far. -/
theorem finite_lookedUp (r : Run κ ν ε) (t : ℕ) : (r.lookedUp t).Finite := by
  induction t with
  | zero =>
    have hempty : r.lookedUp 0 = ∅ :=
      Set.eq_empty_of_forall_notMem fun _ ⟨_, _, hs, _⟩ => Nat.not_lt_zero _ hs
    rw [hempty]
    exact Set.finite_empty
  | succ t ih =>
    have hnew : {k | ∃ l, r.FirstPolled l t ∧ (r.cache t).key? l = some k}.Subsingleton := by
      rintro j ⟨l, hl, hj⟩ k ⟨x, hx, hk⟩
      rw [hx.eq_lookup hl, hj, Option.some_inj] at hk
      exact hk
    refine (ih.union hnew.finite).subset ?_
    exact fun k hk => mem_lookedUp_succ.mp hk

/-- How a calm run stands at a moment: everybody is at work, the known keys are those that were looked
up, and for each of them one initialiser has begun. -/
structure Accounted (r : Run κ ν ε) (t : ℕ) : Prop where
  /-- Everybody is at work. -/
  atWork : (r.cache t).AtWork
  /-- The known keys are those that were looked up. -/
  known_iff : ∀ k, (r.cache t).Known k ↔ k ∈ r.lookedUp t
  /-- An initialiser has begun for each of them. -/
  begun : (r.log t).countP Observation.isBeginning = (r.lookedUp t).ncard

/-- At the beginning there is nothing to account for. -/
theorem accounted_zero (r : Run κ ν ε) : r.Accounted 0 where
  atWork := atWork_empty r.eviction
  known_iff k := by
    constructor
    · rintro (⟨v, hv⟩ | ⟨d, hd⟩)
      · cases hv
      · cases hd
    · rintro ⟨l, s, hs, -⟩
      omega
  begun := by
    have hempty : r.lookedUp 0 = ∅ :=
      Set.eq_empty_of_forall_notMem fun _ ⟨_, _, hs, _⟩ => Nat.not_lt_zero _ hs
    rw [hempty, Set.ncard_empty]
    rfl

/-- A poll in which nothing fails begins an initialiser for the key that it learns, if it learns
one. -/
theorem Accounted.poll (h : r.Accounted t) (he : r.eviction = .never) (ha : r.action t = .poll l)
    (hok : ∀ error, ¬ r.Returns l (.error error) t) : r.Accounted (t + 1) := by
  obtain ⟨shown, hp, hshown⟩ := polled_of_action ha
  have hok' : ∀ error, .returned l (.error error) ∉ shown := by
    intro error hmem
    refine hok error ?_
    rw [Returns, hshown]
    exact List.mem_map_of_mem hmem
  have hknown : ∀ k, (r.cache (t + 1)).Known k ↔ k ∈ r.lookedUp (t + 1) := by
    intro k
    rw [hp.known_iff ((r.eviction_cache t).trans he) hok', h.known_iff, mem_lookedUp_succ]
    refine or_congr_right ⟨fun hfirst => ⟨l, ⟨ha, hfirst.1⟩, hfirst.2⟩, ?_⟩
    rintro ⟨x, ⟨ha', hs⟩, hk⟩
    obtain rfl := Action.poll.inj (ha.symm.trans ha')
    exact ⟨hs, hk⟩
  refine ⟨hp.atWork (r.sound t) h.atWork hok', hknown, ?_⟩
  have hcount : (r.shown t).countP Observation.isBeginning = shown.countP CacheEvent.isBeginning := by
    rw [hshown, List.countP_map]
    rfl
  rw [log_succ, List.countP_append, h.begun, hcount]
  rcases hp.countP_isBeginning h.atWork with ⟨hone, hs, k, hk, hn⟩ | ⟨hzero, hn⟩
  · -- the key that is learnt is the one that was not looked up before
    have hset : r.lookedUp (t + 1) = insert k (r.lookedUp t) := by
      ext j
      rw [mem_lookedUp_succ, Set.mem_insert_iff, or_comm]
      refine or_congr_left ⟨?_, ?_⟩
      · rintro ⟨x, ⟨ha', -⟩, hj⟩
        obtain rfl := Action.poll.inj (ha.symm.trans ha')
        rw [hk, Option.some_inj] at hj
        exact hj.symm
      · rintro rfl
        exact ⟨l, ⟨ha, hs⟩, hk⟩
    rw [h.known_iff] at hn
    rw [hone, hset, Set.ncard_insert_of_notMem hn (r.finite_lookedUp t)]
  · have hset : r.lookedUp (t + 1) = r.lookedUp t := by
      ext j
      rw [mem_lookedUp_succ, or_iff_left_iff_imp]
      rintro ⟨x, ⟨ha', hs⟩, hj⟩
      obtain rfl := Action.poll.inj (ha.symm.trans ha')
      by_contra hnot
      rw [← h.known_iff] at hnot
      exact hn ⟨hs, j, hj, hnot⟩
    rw [hzero, hset, Nat.add_zero]

/-- Where nothing is polled, cancelled or dropped, nothing begins and no key is learnt. -/
theorem Accounted.quiet (h : r.Accounted t) (q : Quiet (r.cache t) (r.cache (t + 1)) (r.action t))
    (hpoll : ∀ l, r.action t ≠ .poll l) (hno : ∀ event, .polled event ∉ r.shown t)
    (hd : ∀ k, ¬ r.Drops k t) : r.Accounted (t + 1) := by
  have hset : r.lookedUp (t + 1) = r.lookedUp t := by
    ext k
    rw [mem_lookedUp_succ, or_iff_left_iff_imp]
    rintro ⟨l, ⟨ha, -⟩, -⟩
    exact absurd ha (hpoll l)
  refine ⟨q.atWork h.atWork, fun k => ?_, ?_⟩
  · rw [q.known_iff hd, h.known_iff, hset]
  · rw [log_succ, List.countP_append, h.begun, countP_isBeginning_eq_zero hno, hset, Nat.add_zero]

/-- The accounts of a calm run are in balance at all times. -/
theorem Calm.accounted (h : r.Calm t) : r.Accounted t := by
  induction t with
  | zero => exact r.accounted_zero
  | succ t ih =>
    have hbefore := ih (h.mono (Nat.le_succ t))
    have hlt := Nat.lt_succ_self t
    have hs := r.stepped t
    generalize ha : r.action t = action at hs
    generalize hshown : r.shown t = seen at hs
    generalize hc : r.cache (t + 1) = c' at hs
    cases hs with
    | quiet hpoll _ hno q =>
      subst ha hshown hc
      exact hbefore.quiet q hpoll hno fun k => h.no_drop hlt
    | polled => exact hbefore.poll h.eviction ha fun error => h.no_error hlt
    | cancelled => exact absurd ha (h.no_cancel hlt)

/-- No key is stored and pending at once, and no key is stored or pending twice. -/
theorem ncard_known (r : Run κ ν ε) (t : ℕ) :
    {k | (r.cache t).Known k}.ncard = (r.cache t).size + (r.cache t).inFlight := by
  have hdisjoint : (r.keys t).Disjoint ((r.cache t).pending.map Prod.fst) := by
    intro k hk hm
    obtain ⟨v, hv⟩ := mem_keys_iff.mp hk
    obtain ⟨d, hd⟩ := exists_pendingCell?_iff.mpr hm
    rw [(r.sound t).mapped_stored hd] at hv
    cases hv
  have hnodup : (r.keys t ++ (r.cache t).pending.map Prod.fst).Nodup :=
    (r.nodup_keys t).append (r.reachable t).nodup_pending hdisjoint
  have hset : {k | (r.cache t).Known k} =
      ((r.keys t ++ (r.cache t).pending.map Prod.fst).toFinset : Set κ) := by
    ext k
    rw [Set.mem_ofPred_eq, Known, exists_pendingCell?_iff, ← mem_keys_iff, Finset.mem_coe,
      List.mem_toFinset, List.mem_append]
  rw [hset, Set.ncard_coe_finset, List.toFinset_card_of_nodup hnodup, List.length_append, keys,
    RecencyList.keys, List.length_map, List.length_map]
  rfl

/-- In every run, every lookup is counted once, and as long as nothing fails, is cancelled, dropped or
evicted every key is worked on once:

* the first poll of a lookup finds a value of its key or does not, and never both, and there is one
  first poll of it at most;
* a first poll that finds a value adds a hit, one that finds none adds a miss, and nothing else
  changes either number: no later poll, whatever it returns, no start, no cancellation, no read and
  no drop;
* so the hits are the lookups that have found a value, the misses are those that have not, and
  together they are the lookups that were polled;
* as long as the run is calm, as many initialisers have begun as keys were looked up, and these are
  as many as there are stored values and pending cells together. -/
theorem accounting_exact (r : Run κ ν ε) :
    (∀ {l : LookupId} {t : ℕ}, r.FirstPolled l t ↔ r.Finds l t ∨ r.Misses l t) ∧
    (∀ {l : LookupId} {s t : ℕ}, r.Finds l s → ¬ r.Misses l t) ∧
    (∀ {l : LookupId} {s t : ℕ}, r.FirstPolled l s → r.FirstPolled l t → s = t) ∧
    (∀ {l : LookupId} {t : ℕ}, r.Finds l t →
      (r.cache (t + 1)).stats.hits = (r.cache t).stats.hits + 1 ∧
        (r.cache (t + 1)).stats.misses = (r.cache t).stats.misses) ∧
    (∀ {l : LookupId} {t : ℕ}, r.Misses l t →
      (r.cache (t + 1)).stats.hits = (r.cache t).stats.hits ∧
        (r.cache (t + 1)).stats.misses = (r.cache t).stats.misses + 1) ∧
    (∀ {t : ℕ}, (∀ l, ¬ r.FirstPolled l t) →
      (r.cache (t + 1)).stats.hits = (r.cache t).stats.hits ∧
        (r.cache (t + 1)).stats.misses = (r.cache t).stats.misses) ∧
    (∀ t : ℕ, (r.cache t).stats.hits = {l | ∃ s, s < t ∧ r.Finds l s}.ncard ∧
      (r.cache t).stats.misses = {l | ∃ s, s < t ∧ r.Misses l s}.ncard ∧
      (r.cache t).stats.hits + (r.cache t).stats.misses =
        {l | ∃ s, s < t ∧ r.FirstPolled l s}.ncard) ∧
    (∀ {t : ℕ}, r.Calm t →
      (r.log t).countP Observation.isBeginning = (r.lookedUp t).ncard ∧
        (r.lookedUp t).ncard = (r.cache t).stats.size + (r.cache t).stats.inFlight) := by
  refine ⟨firstPolled_iff, Finds.not_misses, FirstPolled.unique,
    fun h => Prod.mk.inj h.counts_succ, fun h => Prod.mk.inj h.counts_succ,
    fun h => Prod.mk.inj (counts_succ_of_not_firstPolled h), ?_, ?_⟩
  · intro t
    obtain ⟨hhits, hmisses⟩ := Prod.mk.inj (r.counts_eq t)
    exact ⟨hhits, hmisses, r.hits_add_misses t⟩
  · intro t h
    have hset : r.lookedUp t = {k | (r.cache t).Known k} := by
      ext k
      exact (h.accounted.known_iff k).symm
    refine ⟨h.accounted.begun, ?_⟩
    rw [hset, ncard_known]
    rfl

/-- A run in which two lookups share a key, one waits for the other, a third looks up another key,
and a fourth one finds the value of the first key. -/
def shared : Run ℕ ℕ Unit :=
  .ofList .never
    [.start 7 none, .start 7 none, .start 8 none, .poll 0, .poll 1, .poll 2,
      .decideGate 0 (.ok 5), .poll 0, .poll 1, .start 7 none, .poll 3, .get 7]

/-- The first three lookups are misses and the fourth one is a hit, and two initialisers have begun,
for a key whose value is stored and for one that is pending. -/
theorem shared_accounting_exact :
    shared.Calm 12 ∧
      ((shared.cache 5).stats.hits = (shared.cache 4).stats.hits ∧
        (shared.cache 5).stats.misses = (shared.cache 4).stats.misses + 1) ∧
      ((shared.cache 11).stats.hits = (shared.cache 10).stats.hits + 1 ∧
        (shared.cache 11).stats.misses = (shared.cache 10).stats.misses) ∧
      {l | ∃ s, s < 12 ∧ shared.FirstPolled l s}.ncard = 4 ∧
      {l | ∃ s, s < 12 ∧ shared.Finds l s}.ncard = 1 ∧
      (shared.log 12).countP Observation.isBeginning = 2 ∧ (shared.lookedUp 12).ncard = 2 ∧
      (shared.cache 12).stats.size = 1 ∧ (shared.cache 12).stats.inFlight = 1 := by
  obtain ⟨-, -, -, hfinds, hmisses, -, htotal, hcalm⟩ := shared.accounting_exact
  have hwaits : shared.Misses 1 4 := ⟨⟨rfl, rfl⟩, 7, rfl, rfl⟩
  have hfinished : shared.Finds 3 10 := ⟨⟨rfl, rfl⟩, 7, 5, rfl, rfl⟩
  have hstill : shared.Calm 12 := by
    refine ⟨rfl, ?_, ?_, ?_⟩
    · intro s l error hs h
      interval_cases s <;> exact nomatch h
    · intro s l hs
      interval_cases s <;> exact nofun
    · intro s k hs
      interval_cases s <;> exact id
  obtain ⟨hhits, -, hpolled⟩ := htotal 12
  obtain ⟨hbegun, hkeys⟩ := hcalm hstill
  have htwo : (shared.lookedUp 12).ncard = 2 := hkeys
  exact ⟨hstill, hmisses hwaits, hfinds hfinished, hpolled.symm, hhits.symm, hbegun.trans htwo, htwo,
    rfl, rfl⟩

end Run

end Cache

end RemoteTable
