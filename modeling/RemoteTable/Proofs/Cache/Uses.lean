import Mathlib.Data.List.TakeDrop
import Mathlib.Data.List.TakeWhile
import RemoteTable.Cache.Schedule
import RemoteTable.Proofs.Cache.Edits
import RemoteTable.Proofs.Cache.Freshness

/-!
# Stored keys and their uses

A key is used when a value is stored under it, when the first poll of a lookup finds its value, and
when a read does (`Run.Uses`). Nothing but uses and drops changes what is stored
(`Run.stored_of_not_uses`), and a use brings its key to the front of the others, which are cut at the
end to what is kept (`Run.keys_of_uses`).
-/

namespace RemoteTable

/-- What is kept of a list, from its front. -/
def Eviction.kept {α : Type} (e : Eviction) (xs : List α) : List α :=
  match e.capacity? with
  | some capacity => xs.take capacity
  | none => xs

namespace Eviction

variable {α : Type}

/-- As many are kept as the capacity says, and one at least. -/
theorem kept_leastRecent (n : ℕ) (xs : List α) : (leastRecent n).kept xs = xs.take (max n 1) :=
  rfl

theorem kept_sublist (e : Eviction) (xs : List α) : (e.kept xs).Sublist xs := by
  cases e with
  | never => exact List.Sublist.refl xs
  | leastRecent n => exact List.take_sublist _ xs

/-- What was kept is kept again. -/
theorem kept_kept (e : Eviction) (xs : List α) : e.kept (e.kept xs) = e.kept xs := by
  cases e with
  | never => rfl
  | leastRecent n => rw [kept_leastRecent, kept_leastRecent, List.take_take, Nat.min_self]

/-- What is no longer than something that is kept is kept as well. -/
theorem kept_of_length_le {e : Eviction} {xs ys : List α} (h : e.kept xs = xs)
    (hle : ys.length ≤ xs.length) : e.kept ys = ys := by
  cases e with
  | never => rfl
  | leastRecent n =>
    rw [kept_leastRecent, List.take_eq_self_iff] at h ⊢
    exact Nat.le_trans hle h

/-- There is room for one key at least. -/
theorem mem_kept_cons (e : Eviction) (x : α) (xs : List α) : x ∈ e.kept (x :: xs) := by
  cases e with
  | never => exact List.mem_cons_self
  | leastRecent n =>
    obtain ⟨m, hm⟩ : ∃ m, max n 1 = m + 1 := ⟨max n 1 - 1, by omega⟩
    rw [kept_leastRecent, hm, List.take_succ_cons]
    exact List.mem_cons_self

end Eviction

/-! ## Keys in order of use -/

namespace RecencyList

variable {κ ν : Type} [DecidableEq κ]

/-- The keys, the most recently used first. -/
def keys (entries : RecencyList κ ν) : List κ :=
  entries.map Prod.fst

/-- The keys in order of use are those with a value. -/
theorem mem_keys_iff {entries : RecencyList κ ν} {k : κ} :
    k ∈ entries.keys ↔ ∃ v, entries.find? k = some v := by
  induction entries with
  | nil => simp [keys]
  | cons entry rest ih =>
    obtain ⟨key, value⟩ := entry
    rw [keys, List.map_cons, List.mem_cons, ← keys, ih, find?_cons]
    by_cases h : key = k
    · simp [h]
    · simp [h, Ne.symm h]

theorem keys_erase (entries : RecencyList κ ν) (k : κ) :
    (entries.erase k).keys = entries.keys.filter (· ≠ k) := by
  rw [keys, keys, List.filter_map]
  rfl

/-- The keys with one of them, or a new one, brought to the front. -/
def toFront (k : κ) (keys : List κ) : List κ :=
  k :: keys.filter (· ≠ k)

/-- A key that comes to the front is there, and no other one is lost or new. -/
theorem mem_toFront {j k : κ} {keys : List κ} : k ∈ toFront j keys ↔ k = j ∨ k ∈ keys := by
  rw [toFront, List.mem_cons, List.mem_filter]
  by_cases h : k = j <;> simp [h]

/-- A key stands at the front only, once it has come there. -/
theorem nodup_toFront {k : κ} {keys : List κ} (h : keys.Nodup) : (toFront k keys).Nodup :=
  List.nodup_cons.mpr ⟨by simp, h.filter _⟩

theorem length_toFront_le {k : κ} {keys : List κ} (h : k ∈ keys) :
    (toFront k keys).length ≤ keys.length :=
  List.length_filter_lt_length_iff_exists.mpr ⟨k, h, by simp⟩

theorem keys_touch {entries : RecencyList κ ν} {k : κ} {v : ν} (h : entries.find? k = some v) :
    (entries.touch k).keys = toFront k entries.keys := by
  rw [touch, h, toFront, ← keys_erase]
  rfl

theorem keys_put (e : Eviction) (entries : RecencyList κ ν) (k : κ) (v : ν) :
    (entries.put e k v).keys = e.kept (toFront k entries.keys) := by
  rw [toFront, ← keys_erase]
  cases e with
  | never => rfl
  | leastRecent n => exact List.map_take

/-- The keys in front of a key. -/
def newer (keys : List κ) (k : κ) : List κ :=
  keys.takeWhile (· ≠ k)

theorem newer_sublist (keys : List κ) (k : κ) : (newer keys k).Sublist keys :=
  List.takeWhile_sublist _

/-- No key is newer than the one at the front. -/
@[simp] theorem newer_cons_self (k : κ) (keys : List κ) : newer (k :: keys) k = [] := by
  simp [newer]

theorem newer_cons_of_ne {j k : κ} (h : j ≠ k) (keys : List κ) :
    newer (j :: keys) k = j :: newer keys k := by
  simp [newer, h]

/-- Keys that go are not newer any more, and the others stay so. -/
theorem newer_filter (keep : κ → Bool) {k : κ} (h : keep k = true) (keys : List κ) :
    newer (keys.filter keep) k = (newer keys k).filter keep := by
  rw [newer, newer, List.takeWhile_filter]
  congr 2
  funext a
  by_cases ha : a = k <;> simp [ha, h]

@[simp] theorem newer_toFront_self (k : κ) (keys : List κ) : newer (toFront k keys) k = [] :=
  newer_cons_self k _

theorem newer_toFront_of_ne {j k : κ} (h : j ≠ k) (keys : List κ) :
    newer (toFront j keys) k = toFront j (newer keys k) := by
  rw [toFront, newer_cons_of_ne h, newer_filter (· ≠ j) (decide_eq_true (Ne.symm h))]
  rfl

/-- The keys that are dropped are the oldest ones. -/
theorem newer_kept (e : Eviction) (keys : List κ) (k : κ) :
    newer (e.kept keys) k = e.kept (newer keys k) := by
  cases e with
  | never => rfl
  | leastRecent n => exact List.take_takeWhile.symm

/-- A key is among the first ones exactly if the keys in front of it leave room. -/
theorem mem_take_iff {keys : List κ} {k : κ} {n : ℕ} :
    k ∈ keys.take n ↔ k ∈ keys ∧ (newer keys k).length < n := by
  induction keys generalizing n with
  | nil => simp
  | cons j keys ih =>
    cases n with
    | zero => simp
    | succ n =>
      rw [List.take_succ_cons, List.mem_cons, List.mem_cons, ih]
      by_cases h : k = j
      · simp [h]
      · simp [h, newer_cons_of_ne (Ne.symm h)]

/-- All keys in front of a key that is kept are kept. -/
theorem newer_kept_of_mem {e : Eviction} {keys : List κ} {k : κ} (h : k ∈ e.kept keys) :
    newer (e.kept keys) k = newer keys k := by
  rw [newer_kept]
  cases e with
  | never => rfl
  | leastRecent n => exact List.take_of_length_le (Nat.le_of_lt (mem_take_iff.mp h).2)

/-- A key is kept unless the keys in front of it take all the room. -/
theorem mem_kept_or_full (e : Eviction) {keys : List κ} {k : κ} (h : k ∈ keys) :
    k ∈ e.kept keys ∨ ∃ n, e = .leastRecent n ∧ max n 1 ≤ (newer keys k).length := by
  cases e with
  | never => exact .inl h
  | leastRecent n =>
    rcases Nat.lt_or_ge (newer keys k).length (max n 1) with hlt | hge
    · exact .inl (mem_take_iff.mpr ⟨h, hlt⟩)
    · exact .inr ⟨n, rfl, hge⟩

/-- Not all keys are newer than one of them. -/
theorem length_newer_lt {keys : List κ} {k : κ} (h : k ∈ keys) :
    (newer keys k).length < keys.length := by
  rw [← List.take_length (l := keys), mem_take_iff] at h
  exact h.2

end RecencyList

namespace Cache

variable {κ ν ε : Type} [DecidableEq κ]

/-! ## The eviction rule stays -/

section Eviction

variable (c : Cache κ ν ε) (l : LookupId) (key : κ)

theorem eviction_poll : (c.poll l).1.eviction = c.eviction := by
  rcases c.poll_cases l with ⟨-, h⟩ | ⟨key, -, -, ⟨_, -, h⟩ | ⟨-, h⟩⟩
  · exact h.eviction
  · rw [h]
    rfl
  · exact h.eviction.trans (eviction_attach c key)

/-- No action changes the eviction rule. -/
theorem eviction_step (action : Action κ ν ε) : (c.step action).1.eviction = c.eviction := by
  cases action with
  | poll l => exact eviction_poll c l
  | cancel l => exact (edited_cancel c l).eviction
  | start => rfl
  | decideGate => rfl
  | get => rfl
  | invalidate => rfl
  | clear => rfl

theorem eviction_beginLookup : (c.beginLookup key).1.eviction = c.eviction :=
  eviction_poll _ _

theorem eviction_endLookup (outcome : Except ε ν) : (c.endLookup l outcome).eviction = c.eviction :=
  eviction_poll _ l

end Eviction

/-! ## What a poll does to the stored values -/

variable {c c' : Cache κ ν ε}

/-- A lookup that has the turn in its first poll has found no stored value. -/
theorem Turn.not_stored {l : LookupId} {d : CellId} {begun : List (CacheEvent ν ε)} {k : κ}
    (ht : Turn c l d begun) (hs : c.stage? l = some .fresh) (hk : c.key? l = some k) :
    c.stored.find? k = none := by
  cases ht with
  | taken _ hk' hn =>
    rw [hk, Option.some_inj] at hk'
    rw [hk', hn]
  | handed hw =>
    rw [hs] at hw
    cases hw
  | kept hr =>
    rw [hs] at hr
    cases hr

/-- A poll uses the key that it finds a value of, or stores a value, or leaves the stored values as
they are. -/
theorem Polled.stored_cases {l : LookupId} {shown : List (CacheEvent ν ε)}
    (hp : Polled c l shown c') :
    (∃ k v, c.stage? l = some .fresh ∧ c.key? l = some k ∧ c.stored.find? k = some v ∧
        c'.stored = c.stored.touch k) ∨
      (∃ k d v, c.key? l = some k ∧ (c.prepare l).pendingCell? k = some d ∧
        c'.stored = c.stored.put c.eviction k v) ∨
      ((∀ k, c.stage? l = some .fresh → c.key? l = some k → c.stored.find? k = none) ∧
        c'.stored = c.stored) := by
  cases hp with
  | idle hs => exact .inr (.inr ⟨fun _ h => absurd h hs, rfl⟩)
  | hit hs hk hv _ _ hst => exact .inl ⟨_, _, hs, hk, hv, hst⟩
  | wait _ hk hn _ _ _ _ hst =>
    refine .inr (.inr ⟨?_, hst⟩)
    intro k _ hk'
    rw [hk, Option.some_inj] at hk'
    rw [← hk', hn]
  | receive hs _ _ _ _ hst =>
    refine .inr (.inr ⟨?_, hst⟩)
    intro k hf
    rw [hs] at hf
    cases hf
  | begin ht _ _ hst => exact .inr (.inr ⟨fun _ => ht.not_stored, hst⟩)
  | store _ hk hm _ _ hst => exact .inr (.inl ⟨_, _, _, hk, hm, hst⟩)
  | orphan ht _ _ _ _ hst => exact .inr (.inr ⟨fun _ => ht.not_stored, hst⟩)
  | forget ht _ _ _ _ _ hst => exact .inr (.inr ⟨fun _ => ht.not_stored, hst⟩)
  | fail ht _ _ _ _ hst => exact .inr (.inr ⟨fun _ => ht.not_stored, hst⟩)

/-- An initialiser that succeeds stores its value if its cell is still the pending one of the key. -/
theorem Polled.stored_of_turn {l : LookupId} {shown begun : List (CacheEvent ν ε)} {k : κ}
    {d : CellId} {v : ν} (hp : Polled c l shown c') (h : c.Sound) (ht : Turn c l d begun)
    (hv : .returned l (.ok v) ∈ shown) (hk : c.key? l = some k)
    (hm : (c.prepare l).pendingCell? k = some d) :
    c'.stored = c.stored.put c.eviction k v := by
  cases hp with
  | idle => cases hv
  | wait => cases hv
  | begin => simp at hv
  | hit hs hk' hv' =>
    rw [ht.not_stored hs hk'] at hv'
    cases hv'
  | receive hs _ hv' =>
    rw [ht.eq_of_attached (.inl hs), ht.value h] at hv'
    cases hv'
  | store ht' hk' _ _ _ hst =>
    cases (ht'.eq_of_returned_mem hv).2
    rw [hk, Option.some_inj] at hk'
    rw [hst, hk']
  | orphan ht' hk' hm' =>
    rw [hk, Option.some_inj] at hk'
    rw [← hk', hm, ht'.eq_of_uses ht.joins_or_attached] at hm'
    exact absurd rfl hm'
  | forget ht' => cases (ht'.eq_of_returned_mem hv).2
  | fail ht' => cases (ht'.eq_of_returned_mem hv).2

/-- A pending cell is given up in a poll only when a lookup that is attached to it returns, and then a
value that it returns is stored. -/
theorem Polled.pendingCell?_cases {l : LookupId} {shown : List (CacheEvent ν ε)} {k : κ}
    {d : CellId} (hp : Polled c l shown c') (hm : c.pendingCell? k = some d) :
    c'.pendingCell? k = some d ∨
      (c.Joins l d ∨ c.AttachedTo l d) ∧
        ((∃ v, .returned l (.ok v) ∈ shown ∧ c'.stored.find? k = some v) ∨
          ∃ e, .returned l (.error e) ∈ shown) := by
  have hm' := pendingCell?_prepare_of_some (l := l) hm
  cases hp with
  | idle => exact .inl hm
  | hit _ _ _ _ hpend => exact .inl (by rw [hpend, hm])
  | receive _ _ _ _ hpend => exact .inl (by rw [hpend, hm])
  | wait _ _ _ _ _ _ hpend => exact .inl (by rw [hpend, hm'])
  | begin _ _ hpend => exact .inl (by rw [hpend, hm'])
  | orphan _ _ _ _ hpend => exact .inl (by rw [hpend, hm'])
  | fail _ _ _ _ hpend => exact .inl (by rw [hpend, hm'])
  | @store _ key _ value _ ht _ hme _ hpend hst =>
    by_cases he : k = key
    · subst he
      rw [hm', Option.some_inj] at hme
      subst hme
      refine .inr ⟨ht.joins_or_attached, .inl ⟨value, List.mem_concat_self, ?_⟩⟩
      rw [hst, RecencyList.find?_put_self]
    · exact .inl (by rw [hpend, Function.update_of_ne he, hm'])
  | @forget _ key _ error _ ht _ hme _ _ hpend =>
    by_cases he : k = key
    · subst he
      rw [hm', Option.some_inj] at hme
      subst hme
      exact .inr ⟨ht.joins_or_attached, .inr ⟨error, List.mem_concat_self⟩⟩
    · exact .inl (by rw [hpend, Function.update_of_ne he, hm'])

/-- A pending cell that is not dropped is given up only when a lookup that is attached to it returns,
and a value that is returned then is stored. -/
theorem Stepped.pendingCell?_cases {action : Action κ ν ε} {seen : List (Observation κ ν ε)} {k : κ}
    {d : CellId} (hs : Stepped c action seen c') (hm : c.pendingCell? k = some d)
    (hd : ¬ action.Drops k) :
    c'.pendingCell? k = some d ∨
      ∃ l, (c.Joins l d ∨ c.AttachedTo l d) ∧
        ((∃ v, .polled (.returned l (.ok v)) ∈ seen ∧ c'.stored.find? k = some v) ∨
          ∃ e, .polled (.returned l (.error e)) ∈ seen) := by
  cases hs with
  | quiet _ _ _ q => exact .inl (q.pending_kept hd hm)
  | cancelled hc => exact .inl (by rw [hc.keys.1, hm])
  | polled hp =>
    rcases hp.pendingCell?_cases hm with h | ⟨hl, ⟨v, hv, hst⟩ | ⟨e, he⟩⟩
    · exact .inl h
    · exact .inr ⟨_, hl, .inl ⟨v, List.mem_map_of_mem hv, hst⟩⟩
    · exact .inr ⟨_, hl, .inr ⟨e, List.mem_map_of_mem he⟩⟩

/-! ## What the other actions do to the stored values -/

/-- The stored values that an action does not drop. -/
def Action.notDropped (action : Action κ ν ε) (entries : RecencyList κ ν) : RecencyList κ ν :=
  entries.filter fun entry => ¬ action.Drops entry.1

/-- An action that drops no key drops no value. -/
theorem Action.notDropped_eq_self {action : Action κ ν ε} (h : ∀ k, ¬ action.Drops k)
    (entries : RecencyList κ ν) : action.notDropped entries = entries :=
  List.filter_eq_self.mpr fun entry _ => decide_eq_true (h entry.1)

/-- An action that neither polls a lookup nor reads a value leaves all stored values that it does not
drop. -/
theorem stored_step (c : Cache κ ν ε) {action : Action κ ν ε} (hpoll : ∀ l, action ≠ .poll l)
    (hget : ∀ k, action = .get k → c.stored.find? k = none) :
    (c.step action).1.stored = action.notDropped c.stored := by
  cases action with
  | poll l => exact absurd rfl (hpoll l)
  | get k =>
    rw [Action.notDropped_eq_self fun _ => id]
    show c.stored.touch k = c.stored
    rw [RecencyList.touch, hget k rfl]
  | invalidate k =>
    show c.stored.erase k = _
    exact List.filter_congr fun entry _ => decide_eq_decide.mpr (not_congr eq_comm)
  | clear =>
    show [] = _
    exact (List.filter_eq_nil_iff.mpr fun entry _ => by simp [Action.Drops]).symm
  | start => exact (Action.notDropped_eq_self (fun _ => id) _).symm
  | decideGate => exact (Action.notDropped_eq_self (fun _ => id) _).symm
  | cancel l =>
    rw [Action.notDropped_eq_self fun _ => id]
    show (c.cancel l).stored = c.stored
    unfold cancel
    split
    · rfl
    · split <;> rfl

namespace Run

/-! ## Uses -/

/-- The stored keys at a moment, the most recently used first. -/
def keys (r : Run κ ν ε) (t : ℕ) : List κ :=
  (r.cache t).stored.keys

/-- A value is stored under the key, which had none. -/
def Stores (r : Run κ ν ε) (k : κ) (t : ℕ) : Prop :=
  (r.cache t).stored.find? k = none ∧ ∃ v, (r.cache (t + 1)).stored.find? k = some v

/-- The first poll of a lookup finds the stored value of the key. -/
def Hits (r : Run κ ν ε) (k : κ) (t : ℕ) : Prop :=
  ∃ l v, r.FirstPolled l t ∧ (r.cache t).key? l = some k ∧ (r.cache t).stored.find? k = some v

/-- The key is used: a value is stored under it, or a first poll or a read finds its value. -/
def Uses (r : Run κ ν ε) (k : κ) (t : ℕ) : Prop :=
  r.Stores k t ∨ r.Hits k t ∨ ∃ v, r.Reads k v t

variable {r : Run κ ν ε} {l : LookupId} {j k : κ} {d : CellId} {v : ν} {n s t u : ℕ}

theorem mem_keys_iff : k ∈ r.keys t ↔ ∃ v, (r.cache t).stored.find? k = some v :=
  RecencyList.mem_keys_iff

theorem eviction_cache (r : Run κ ν ε) (t : ℕ) : (r.cache t).eviction = r.eviction := by
  induction t with
  | zero => rfl
  | succ t ih => rw [cache, eviction_step, ih]

/-- A value is stored exactly when an initialiser succeeds whose cell is still the pending one of the
key. -/
theorem stores_iff :
    r.Stores k t ↔ ∃ l d v, r.Succeeds l d v t ∧ (r.cache t).key? l = some k ∧
      ((r.cache t).prepare l).pendingCell? k = some d := by
  constructor
  · rintro ⟨hn, v, hv⟩
    rcases (r.stepped t).stored_before hv with hold | ⟨l, d, begun, -, ht, hk, hm, hs⟩
    · rw [hn] at hold
      cases hold
    · exact ⟨l, d, v, succeeds_of_turn ht hs, hk, hm⟩
  · rintro ⟨l, d, v, hsucc, hk, hm⟩
    obtain ⟨begun, ht, -⟩ := hsucc.turn
    obtain ⟨shown, hp, hs⟩ := polled_of_action hsucc.2.1.action
    have hv : .returned l (.ok v) ∈ shown := by simpa [Returns, hs] using hsucc.2.1
    have hst := hp.stored_of_turn (r.sound t) ht hv hk hm
    exact ⟨(r.sound t).stored_of_prepare hm, v, by rw [hst, RecencyList.find?_put_self]⟩

/-- A key is used by a poll of one of its lookups or by a read of it. -/
theorem Uses.action (h : r.Uses k t) :
    (∃ l, r.action t = .poll l ∧ (r.cache t).key? l = some k) ∨ r.action t = .get k := by
  rcases h with hs | ⟨l, v, hf, hk, -⟩ | ⟨v, hr⟩
  · obtain ⟨l, d, v, hsucc, hk, -⟩ := stores_iff.mp hs
    exact .inl ⟨l, hsucc.2.1.action, hk⟩
  · exact .inl ⟨l, hf.1, hk⟩
  · exact .inr (reads_iff.mp hr).1

/-- At most one key is used at a moment. -/
theorem Uses.unique (h : r.Uses j t) (h' : r.Uses k t) : j = k := by
  rcases h.action with ⟨l, ha, hk⟩ | ha <;> rcases h'.action with ⟨l', ha', hk'⟩ | ha' <;>
    rw [ha] at ha' <;> cases ha'
  · rw [hk, Option.some_inj] at hk'
    exact hk'
  · rfl

/-- A step that uses a key drops no key. -/
theorem Uses.not_drops (h : r.Uses j t) : ¬ r.Drops k t := by
  rcases h.action with ⟨l, ha, -⟩ | ha <;> rw [Drops, ha] <;> exact id

/-! ## What is stored after a step -/

/-- A step brings the key that it uses to the front, or stores a value under it, or it uses no key and
leaves all stored values that it does not drop. -/
theorem stored_succ_cases (r : Run κ ν ε) (t : ℕ) :
    (∃ k v, r.Uses k t ∧ (r.cache t).stored.find? k = some v ∧
        (r.cache (t + 1)).stored = (r.cache t).stored.touch k) ∨
      (∃ k v, r.Uses k t ∧ (r.cache (t + 1)).stored = (r.cache t).stored.put r.eviction k v) ∨
      ((∀ k, ¬ r.Uses k t) ∧
        (r.cache (t + 1)).stored = (r.action t).notDropped (r.cache t).stored) := by
  by_cases hpoll : ∃ l, r.action t = .poll l
  · obtain ⟨l, ha⟩ := hpoll
    obtain ⟨shown, hp, -⟩ := polled_of_action ha
    rcases hp.stored_cases with ⟨k, v, hs, hk, hv, hst⟩ | ⟨k, d, v, hk, hm, hst⟩ | ⟨hn, hst⟩
    · exact .inl ⟨k, v, .inr (.inl ⟨l, v, ⟨ha, hs⟩, hk, hv⟩), hv, hst⟩
    · rw [r.eviction_cache] at hst
      refine .inr (.inl ⟨k, v, .inl ⟨(r.sound t).stored_of_prepare hm, v, ?_⟩, hst⟩)
      rw [hst, RecencyList.find?_put_self]
    · refine .inr (.inr ⟨?_, ?_⟩)
      · rintro k (⟨hnone, v, hv⟩ | ⟨l', v, hf, hk, hv⟩ | ⟨v, hr⟩)
        · rw [hst, hnone] at hv
          cases hv
        · obtain rfl := Action.poll.inj (ha.symm.trans hf.1)
          rw [hn k hf.2 hk] at hv
          cases hv
        · cases ha.symm.trans (reads_iff.mp hr).1
      · rw [hst, ha, Action.notDropped_eq_self fun _ => id]
  · by_cases hget : ∃ k v, r.action t = .get k ∧ (r.cache t).stored.find? k = some v
    · obtain ⟨k, v, ha, hv⟩ := hget
      refine .inl ⟨k, v, .inr (.inr ⟨v, reads_iff.mpr ⟨ha, hv⟩⟩), hv, ?_⟩
      rw [cache, ha]
      rfl
    · refine .inr (.inr ⟨?_, ?_⟩)
      · intro k h
        rcases h with hs | ⟨l, v, hf, -⟩ | ⟨v, hr⟩
        · obtain ⟨l, d, v, hsucc, -⟩ := stores_iff.mp hs
          exact hpoll ⟨l, hsucc.2.1.action⟩
        · exact hpoll ⟨l, hf.1⟩
        · exact hget ⟨k, v, reads_iff.mp hr⟩
      · apply stored_step
        · exact fun l ha => hpoll ⟨l, ha⟩
        · intro k ha
          rw [Option.eq_none_iff_forall_ne_some]
          exact fun v hv => hget ⟨k, v, ha, hv⟩

/-- No more keys are stored than are kept. -/
theorem kept_keys (r : Run κ ν ε) (t : ℕ) : r.eviction.kept (r.keys t) = r.keys t := by
  induction t with
  | zero => exact List.sublist_nil.mp (r.eviction.kept_sublist [])
  | succ t ih =>
    rcases r.stored_succ_cases t with ⟨k, v, -, hv, hst⟩ | ⟨k, v, -, hst⟩ | ⟨-, hst⟩
    · refine Eviction.kept_of_length_le ih ?_
      rw [keys, hst, RecencyList.keys_touch hv]
      exact RecencyList.length_toFront_le (mem_keys_iff.mpr ⟨v, hv⟩)
    · rw [keys, hst, RecencyList.keys_put, Eviction.kept_kept]
    · refine Eviction.kept_of_length_le ih ?_
      rw [keys, hst, keys, RecencyList.keys, RecencyList.keys, List.length_map, List.length_map]
      exact List.length_filter_le _ _

/-- A key that is used comes to the front, and the others are cut to what is kept. -/
theorem keys_of_uses (h : r.Uses k t) :
    r.keys (t + 1) = r.eviction.kept (RecencyList.toFront k (r.keys t)) := by
  rcases r.stored_succ_cases t with ⟨j, v, hu, hv, hst⟩ | ⟨j, v, hu, hst⟩ | ⟨hno, -⟩
  · obtain rfl := h.unique hu
    have hlength := RecencyList.length_toFront_le (mem_keys_iff.mpr ⟨v, hv⟩)
    rw [keys, hst, RecencyList.keys_touch hv]
    exact (Eviction.kept_of_length_le (r.kept_keys t) hlength).symm
  · obtain rfl := h.unique hu
    rw [keys, hst, RecencyList.keys_put]
    rfl
  · exact absurd h (hno k)

/-- Where no key is used, all stored values stay that are not dropped. -/
theorem stored_of_not_uses (h : ∀ k, ¬ r.Uses k t) :
    (r.cache (t + 1)).stored = (r.action t).notDropped (r.cache t).stored := by
  rcases r.stored_succ_cases t with ⟨k, v, hu, -⟩ | ⟨k, v, hu, -⟩ | ⟨-, hst⟩
  · exact absurd hu (h k)
  · exact absurd hu (h k)
  · exact hst

/-- A step that uses no key keeps the order of the keys that it does not drop. -/
theorem keys_of_not_uses (h : ∀ k, ¬ r.Uses k t) :
    r.keys (t + 1) = (r.keys t).filter fun k => ¬ r.Drops k t := by
  rw [keys, stored_of_not_uses h, keys, RecencyList.keys, RecencyList.keys, List.filter_map]
  rfl

theorem nodup_keys (r : Run κ ν ε) (t : ℕ) : (r.keys t).Nodup := by
  induction t with
  | zero => exact List.nodup_nil
  | succ t ih =>
    by_cases h : ∃ k, r.Uses k t
    · obtain ⟨k, hk⟩ := h
      rw [keys_of_uses hk]
      exact (RecencyList.nodup_toFront ih).sublist (Eviction.kept_sublist _ _)
    · rw [keys_of_not_uses (not_exists.mp h)]
      exact ih.filter _

end Run

end Cache

end RemoteTable
