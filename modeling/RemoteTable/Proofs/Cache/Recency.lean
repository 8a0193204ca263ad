import Mathlib.Data.Set.Card
import Mathlib.Data.Set.Finite.Lattice
import Mathlib.Tactic.IntervalCases
import RemoteTable.Proofs.Cache.Uses

/-!
# Which values are stored

The keys in front of a stored key have all been used since its last use (`Run.storedAhead_or_full`),
and as long as nothing is dropped they are all the keys that have been used since
(`Run.mem_newer_of_othersUsed`). So a key is stored exactly as long as these are fewer than the keys
that are kept (`Run.recency_exact`). Pending cells take no part in this: they need no room, and they
are given up for nobody else.
-/

namespace RemoteTable

namespace Cache

variable {κ ν ε : Type} [DecidableEq κ]

namespace Run

/-! ## Between two moments -/

/-- The other keys that are used between two moments. -/
def othersUsed (r : Run κ ν ε) (k : κ) (u t : ℕ) : Set κ :=
  {j | j ≠ k ∧ ∃ s, u < s ∧ s < t ∧ r.Uses j s}

/-- The last moment before another one at which the key is used. -/
structure LastUsed (r : Run κ ν ε) (k : κ) (u t : ℕ) : Prop where
  /-- It comes before. -/
  lt : u < t
  /-- The key is used. -/
  uses : r.Uses k u
  /-- The key is not used in between. -/
  last : ∀ {s}, u < s → s < t → ¬ r.Uses k s

variable {r : Run κ ν ε} {j k : κ} {d : CellId} {v : ν} {n s t u : ℕ}

theorem finite_othersUsed (r : Run κ ν ε) (k : κ) (u t : ℕ) : (r.othersUsed k u t).Finite := by
  have hcover : r.othersUsed k u t ⊆ ⋃ s ∈ {s | s < t}, {j | r.Uses j s} := by
    rintro j ⟨-, s, -, hst, hj⟩
    simp only [Set.mem_iUnion]
    exact ⟨s, hst, hj⟩
  refine Set.Finite.subset ?_ hcover
  -- one key at most at every moment
  refine (Set.finite_lt_nat t).biUnion fun s _ => Set.Subsingleton.finite ?_
  exact fun i hi j hj => hi.unique hj

/-- The longer one waits, the more keys are used. -/
theorem othersUsed_mono (r : Run κ ν ε) (k : κ) (hst : s ≤ t) :
    r.othersUsed k u s ⊆ r.othersUsed k u t := by
  rintro j ⟨hj, i, hui, his, hu⟩
  exact ⟨hj, i, hui, by omega, hu⟩

/-- Other keys that stand in front of a key, all of them used, are no more than all that were used. -/
theorem length_newer_le {keys : List κ} (hnodup : keys.Nodup)
    (h : ∀ j ∈ RecencyList.newer keys k, j ∈ r.othersUsed k u t) :
    (RecencyList.newer keys k).length ≤ (r.othersUsed k u t).ncard := by
  have hnewer := hnodup.sublist (RecencyList.newer_sublist keys k)
  rw [← List.toFinset_card_of_nodup hnewer, ← Set.ncard_coe_finset]
  refine Set.ncard_le_ncard ?_ (r.finite_othersUsed k u t)
  intro j hj
  exact h j (List.mem_toFinset.mp (Finset.mem_coe.mp hj))

/-- The key that is used stands in front of all others afterwards. -/
theorem newer_of_uses (h : r.Uses k t) :
    k ∈ r.keys (t + 1) ∧ RecencyList.newer (r.keys (t + 1)) k = [] := by
  rw [keys_of_uses h, RecencyList.newer_kept, RecencyList.newer_toFront_self]
  exact ⟨Eviction.mem_kept_cons _ k _, List.sublist_nil.mp (Eviction.kept_sublist _ [])⟩

/-- Where no key is used, only keys that are dropped go away from those in front. -/
theorem newer_of_not_uses (h : ∀ j, ¬ r.Uses j t) (hd : ¬ r.Drops k t) :
    RecencyList.newer (r.keys (t + 1)) k =
      (RecencyList.newer (r.keys t) k).filter fun j => ¬ r.Drops j t := by
  rw [keys_of_not_uses h]
  exact RecencyList.newer_filter (fun j => ¬ r.Drops j t) (decide_eq_true hd) _

/-- The key is stored, and all keys in front of it were used after a moment. -/
structure StoredAhead (r : Run κ ν ε) (k : κ) (u t : ℕ) : Prop where
  /-- The key is stored. -/
  mem : k ∈ r.keys t
  /-- The keys in front of it were used since. -/
  newer : ∀ j ∈ RecencyList.newer (r.keys t) k, j ∈ r.othersUsed k u t

/-- Nothing stands in front of a key that was just used. -/
theorem StoredAhead.of_uses (h : r.Uses k t) : r.StoredAhead k u (t + 1) := by
  obtain ⟨hk, hnewer⟩ := newer_of_uses h
  refine ⟨hk, ?_⟩
  rw [hnewer]
  exact fun _ => nofun

/-- A step that does not drop the key leaves it stored, unless other keys take all the room. -/
theorem StoredAhead.succ (h : r.StoredAhead k u t) (hut : u < t) (hd : ¬ r.Drops k t) :
    r.StoredAhead k u (t + 1) ∨
      ∃ n, r.eviction = .leastRecent n ∧ max n 1 ≤ (r.othersUsed k u (t + 1)).ncard := by
  have hmono := r.othersUsed_mono (u := u) k (Nat.le_succ t)
  by_cases hno : ∃ j, r.Uses j t
  · obtain ⟨j, hj⟩ := hno
    by_cases hjk : j = k
    · subst hjk
      exact .inl (.of_uses hj)
    · -- the key that is used now is one more in front
      have hfront : ∀ i ∈ RecencyList.newer (RecencyList.toFront j (r.keys t)) k,
          i ∈ r.othersUsed k u (t + 1) := by
        intro i hi
        rw [RecencyList.newer_toFront_of_ne hjk] at hi
        rcases RecencyList.mem_toFront.mp hi with rfl | hi
        · exact ⟨hjk, t, hut, Nat.lt_succ_self t, hj⟩
        · exact hmono (h.newer i hi)
      have hk : k ∈ RecencyList.toFront j (r.keys t) := RecencyList.mem_toFront.mpr (.inr h.mem)
      rcases RecencyList.mem_kept_or_full r.eviction hk with hkept | ⟨n, he, hn⟩
      · rw [← keys_of_uses hj] at hkept
        refine .inl ⟨hkept, ?_⟩
        rw [keys_of_uses hj] at hkept ⊢
        rw [RecencyList.newer_kept_of_mem hkept]
        exact hfront
      · have hnodup := RecencyList.nodup_toFront (k := j) (r.nodup_keys t)
        exact .inr ⟨n, he, Nat.le_trans hn (length_newer_le hnodup hfront)⟩
  · rw [not_exists] at hno
    refine .inl ⟨?_, ?_⟩
    · rw [keys_of_not_uses hno, List.mem_filter]
      exact ⟨h.mem, decide_eq_true hd⟩
    · rw [newer_of_not_uses hno hd]
      exact fun i hi => hmono (h.newer i (List.mem_of_mem_filter hi))

/-- A key that is not dropped after a use is stored, with only keys in front of it that were used
since, or these are as many as the keys that are kept. -/
theorem storedAhead_or_full (hu : r.Uses k u) (hut : u < t)
    (hd : ∀ s, u < s → s < t → ¬ r.Drops k s) :
    r.StoredAhead k u t ∨
      ∃ n, r.eviction = .leastRecent n ∧ max n 1 ≤ (r.othersUsed k u t).ncard := by
  induction t, Nat.succ_le_of_lt hut using Nat.le_induction with
  | base => exact .inl (.of_uses hu)
  | succ t hut' ih =>
    rcases ih hut' fun s hus hst => hd s hus (by omega) with h | ⟨n, he, hn⟩
    · exact h.succ hut' (hd t hut' (Nat.lt_succ_self t))
    · have hmono := r.othersUsed_mono (u := u) k (Nat.le_succ t)
      exact .inr ⟨n, he, Nat.le_trans hn (Set.ncard_le_ncard hmono (r.finite_othersUsed k u _))⟩

/-- As long as nothing is dropped, all keys that were used since the last use of a stored key stand in
front of it. -/
theorem mem_newer_of_othersUsed (hut : u < t) (hlast : ∀ s, u < s → s < t → ¬ r.Uses k s)
    (hd : ∀ s, u < s → s < t → ∀ i, ¬ r.Drops i s) (hk : k ∈ r.keys t)
    (hj : j ∈ r.othersUsed k u t) : j ∈ RecencyList.newer (r.keys t) k := by
  induction t, Nat.succ_le_of_lt hut using Nat.le_induction with
  | base =>
    obtain ⟨-, s, hus, hst, -⟩ := hj
    omega
  | succ t hut' ih =>
    obtain ⟨hjk, s, hus, hst, hs⟩ := hj
    have hold : k ∈ r.keys t → s < t → j ∈ RecencyList.newer (r.keys t) k := fun hk hlt =>
      ih hut' (fun i hui hit => hlast i hui (by omega)) (fun i hui hit => hd i hui (by omega)) hk
        ⟨hjk, s, hus, hlt, hs⟩
    by_cases hno : ∃ i, r.Uses i t
    · obtain ⟨i, hi⟩ := hno
      have hik : i ≠ k := by
        rintro rfl
        exact hlast t hut' (Nat.lt_succ_self t) hi
      rw [keys_of_uses hi] at hk ⊢
      rw [RecencyList.newer_kept_of_mem hk, RecencyList.newer_toFront_of_ne hik,
        RecencyList.mem_toFront]
      rcases Nat.lt_succ_iff_lt_or_eq.mp hst with hlt | rfl
      · have hk' := (Eviction.kept_sublist _ _).subset hk
        exact .inr (hold ((RecencyList.mem_toFront.mp hk').resolve_left (Ne.symm hik)) hlt)
      · exact .inl (hs.unique hi)
    · rw [not_exists] at hno
      have hnot := hd t hut' (Nat.lt_succ_self t)
      have hlt : s < t := by
        rcases Nat.lt_succ_iff_lt_or_eq.mp hst with hlt | rfl
        · exact hlt
        · exact absurd hs (hno j)
      rw [keys_of_not_uses hno] at hk
      rw [newer_of_not_uses hno (hnot k), List.mem_filter]
      exact ⟨hold (List.mem_of_mem_filter hk) hlt, decide_eq_true (hnot j)⟩

/-! ## Values -/

/-- While a key is stored, its value stays. -/
theorem find?_succ (h : (r.cache t).stored.find? k = some v) (hk : k ∈ r.keys (t + 1)) :
    (r.cache (t + 1)).stored.find? k = some v := by
  obtain ⟨w, hw⟩ := mem_keys_iff.mp hk
  rcases (r.stepped t).stored_before hw with hold | ⟨l, d, begun, -, -, -, hm, -⟩
  · rw [h] at hold
    rw [hw, hold]
  · rw [(r.sound t).stored_of_prepare hm] at h
    cases h

/-- The value of a key that stays stored from a moment on stays the same. -/
theorem find?_of_forall_mem (hst : s ≤ t) (h : (r.cache s).stored.find? k = some v)
    (hk : ∀ i, s < i → i ≤ t → k ∈ r.keys i) : (r.cache t).stored.find? k = some v := by
  induction t, hst using Nat.le_induction with
  | base => exact h
  | succ t hst ih =>
    exact find?_succ (ih fun i hsi hit => hk i hsi (by omega)) (hk (t + 1) (by omega) le_rfl)

/-- A key that is stored after a step that does not use it was stored before, and is not dropped. -/
theorem mem_keys_of_succ (h : k ∈ r.keys (t + 1)) (hk : ¬ r.Uses k t) :
    k ∈ r.keys t ∧ ¬ r.Drops k t := by
  by_cases hno : ∃ j, r.Uses j t
  · obtain ⟨j, hj⟩ := hno
    rw [keys_of_uses hj] at h
    refine ⟨?_, hj.not_drops⟩
    rcases RecencyList.mem_toFront.mp ((Eviction.kept_sublist _ _).subset h) with rfl | hmem
    · exact absurd hj hk
    · exact hmem
  · rw [keys_of_not_uses (not_exists.mp hno), List.mem_filter] at h
    exact ⟨h.1, of_decide_eq_true h.2⟩

/-- A stored key was used, and was not dropped since. -/
theorem exists_lastUsed (h : k ∈ r.keys t) :
    ∃ u, r.LastUsed k u t ∧ ∀ s, u < s → s < t → ¬ r.Drops k s := by
  induction t with
  | zero => cases h
  | succ t ih =>
    by_cases hk : r.Uses k t
    · exact ⟨t, ⟨Nat.lt_succ_self t, hk, by omega⟩, by omega⟩
    · obtain ⟨hmem, hnot⟩ := mem_keys_of_succ h hk
      obtain ⟨u, hu, hd⟩ := ih hmem
      refine ⟨u, ⟨Nat.lt_succ_of_lt hu.lt, hu.uses, ?_⟩, ?_⟩
      · intro s hus hst
        rcases Nat.lt_succ_iff_lt_or_eq.mp hst with hlt | rfl
        · exact hu.last hus hlt
        · exact hk
      · intro s hus hst
        rcases Nat.lt_succ_iff_lt_or_eq.mp hst with hlt | rfl
        · exact hd s hus hlt
        · exact hnot

/-! ## Capacity -/

/-- The cache does not grow beyond its capacity, which counts as one at least. -/
theorem size_le (he : r.eviction = .leastRecent n) : (r.cache t).size ≤ max n 1 := by
  have hkept := r.kept_keys t
  rw [he, Eviction.kept_leastRecent, List.take_eq_self_iff, keys, RecencyList.keys,
    List.length_map] at hkept
  exact hkept

/-- A key that is not dropped after a use keeps its value while fewer other keys are used than are
kept. -/
theorem find?_of_ncard_lt (he : r.eviction = .leastRecent n) (hu : r.Uses k u) (hut : u < t)
    (hd : ∀ s, u < s → s < t → ¬ r.Drops k s) (hn : (r.othersUsed k u t).ncard < max n 1) :
    ∃ v, (r.cache (u + 1)).stored.find? k = some v ∧ (r.cache t).stored.find? k = some v := by
  have hmem : ∀ s, u < s → s ≤ t → k ∈ r.keys s := by
    intro s hus hst
    rcases storedAhead_or_full hu hus fun i hui his => hd i hui (by omega) with h | ⟨m, hm, hle⟩
    · exact h.mem
    · rw [he, Eviction.leastRecent.injEq] at hm
      subst hm
      have hmono := Set.ncard_le_ncard (r.othersUsed_mono k hst) (r.finite_othersUsed k u t)
      omega
  obtain ⟨v, hv⟩ := mem_keys_iff.mp (hmem (u + 1) (Nat.lt_succ_self u) hut)
  exact ⟨v, hv, find?_of_forall_mem hut hv fun s hus hst => hmem s (by omega) hst⟩

/-- As long as nothing is dropped, a key is stored exactly if fewer other keys were used since its last
use than are kept. -/
theorem mem_keys_iff_ncard_lt (he : r.eviction = .leastRecent n) (hu : r.LastUsed k u t)
    (hd : ∀ s, u < s → s < t → ∀ j, ¬ r.Drops j s) :
    k ∈ r.keys t ↔ (r.othersUsed k u t).ncard < max n 1 := by
  constructor
  · intro hk
    have hcover : r.othersUsed k u t ⊆ ↑(RecencyList.newer (r.keys t) k).toFinset := by
      intro j hj
      rw [Finset.mem_coe, List.mem_toFinset]
      exact mem_newer_of_othersUsed hu.lt (fun s => hu.last) hd hk hj
    have hnewer := RecencyList.length_newer_lt hk
    have hle : (r.othersUsed k u t).ncard ≤ (RecencyList.newer (r.keys t) k).length := by
      refine Nat.le_trans (Set.ncard_le_ncard hcover (Finset.finite_toSet _)) ?_
      rw [Set.ncard_coe_finset]
      exact List.toFinset_card_le _
    have hsize := size_le (t := t) he
    rw [size, ← List.length_map Prod.fst] at hsize
    exact Nat.lt_of_le_of_lt hle (Nat.lt_of_lt_of_le hnewer hsize)
  · intro hn
    obtain ⟨v, -, hv⟩ := find?_of_ncard_lt he hu.uses hu.lt (fun s hus hst => hd s hus hst k) hn
    exact mem_keys_iff.mpr ⟨v, hv⟩

/-- Where nothing is evicted, a value stays until its key is dropped. -/
theorem find?_of_never (he : r.eviction = .never) (hst : s ≤ t)
    (h : (r.cache s).stored.find? k = some v) (hd : ∀ i, s ≤ i → i < t → ¬ r.Drops k i) :
    (r.cache t).stored.find? k = some v := by
  obtain ⟨u, hu, hd'⟩ := exists_lastUsed (mem_keys_iff.mpr ⟨v, h⟩)
  have hkept : ∀ j, u < j → j < t → ¬ r.Drops k j := by
    intro j huj hjt
    rcases Nat.lt_or_ge j s with hjs | hjs
    · exact hd' j huj hjs
    · exact hd j hjs hjt
  refine find?_of_forall_mem hst h fun i hsi hit => ?_
  have hui : u < i := Nat.lt_trans hu.lt hsi
  rcases storedAhead_or_full hu.uses hui fun j huj hji => hkept j huj (by omega) with hi | ⟨n, hn, -⟩
  · exact hi.mem
  · rw [he] at hn
    cases hn

/-- A pending cell is given up only when its key is dropped or a lookup that is attached to it returns,
and a value that is returned then is stored. -/
theorem pendingCell?_succ_cases (hm : (r.cache t).pendingCell? k = some d) :
    (r.cache (t + 1)).pendingCell? k = some d ∨ r.Drops k t ∨
      ∃ l, ((r.cache t).Joins l d ∨ (r.cache t).AttachedTo l d) ∧
        ((∃ v, r.Returns l (.ok v) t ∧ (r.cache (t + 1)).stored.find? k = some v) ∨
          ∃ e, r.Returns l (.error e) t) := by
  by_cases hd : r.Drops k t
  · exact .inr (.inl hd)
  · exact (r.stepped t).pendingCell?_cases hm hd |>.imp_right .inr

/-- In every run, the stored values are exactly those of the keys that were used last:

* a value is stored when an initialiser succeeds whose cell is still the pending one of the key;
* a key that is used, because a value is stored under it or a first poll or a read finds its value,
  comes to the front of the stored keys, and the others stay in their order and are cut at the end to
  what is kept;
* a step that uses no key, whatever lookups it starts, makes wait, fails or cancels, leaves the stored
  values as they are, except those that it drops;
* a pending cell is given up only when its key is dropped or a lookup that is attached to it returns,
  and a value that is returned then is stored;
* where a number of keys is kept, no more values than this, or than one, are ever stored;
* a key that is not dropped after a use keeps its value while fewer other keys are used than are kept;
* if nothing at all is dropped since the last use of a key, it is stored exactly if fewer other keys
  were used since than are kept;
* every stored key was used before, and was not dropped since;
* where nothing is evicted, a value stays until its key is dropped. -/
theorem recency_exact (r : Run κ ν ε) :
    (∀ {k : κ} {t : ℕ}, r.Stores k t ↔ ∃ l d v, r.Succeeds l d v t ∧
      (r.cache t).key? l = some k ∧ ((r.cache t).prepare l).pendingCell? k = some d) ∧
    (∀ {k : κ} {t : ℕ}, r.Uses k t →
      r.keys (t + 1) = r.eviction.kept (RecencyList.toFront k (r.keys t))) ∧
    (∀ {t : ℕ}, (∀ k, ¬ r.Uses k t) →
      (r.cache (t + 1)).stored = (r.action t).notDropped (r.cache t).stored) ∧
    (∀ {k : κ} {d : CellId} {t : ℕ}, (r.cache t).pendingCell? k = some d →
      (r.cache (t + 1)).pendingCell? k = some d ∨ r.Drops k t ∨
        ∃ l, ((r.cache t).Joins l d ∨ (r.cache t).AttachedTo l d) ∧
          ((∃ v, r.Returns l (.ok v) t ∧ (r.cache (t + 1)).stored.find? k = some v) ∨
            ∃ e, r.Returns l (.error e) t)) ∧
    (∀ {n t : ℕ}, r.eviction = .leastRecent n → (r.cache t).size ≤ max n 1) ∧
    (∀ {n : ℕ} {k : κ} {u t : ℕ}, r.eviction = .leastRecent n → r.Uses k u → u < t →
      (∀ s, u < s → s < t → ¬ r.Drops k s) → (r.othersUsed k u t).ncard < max n 1 →
      ∃ v, (r.cache (u + 1)).stored.find? k = some v ∧ (r.cache t).stored.find? k = some v) ∧
    (∀ {n : ℕ} {k : κ} {u t : ℕ}, r.eviction = .leastRecent n → r.LastUsed k u t →
      (∀ s, u < s → s < t → ∀ j, ¬ r.Drops j s) →
      (k ∈ r.keys t ↔ (r.othersUsed k u t).ncard < max n 1)) ∧
    (∀ {k : κ} {t : ℕ}, k ∈ r.keys t →
      ∃ u, r.LastUsed k u t ∧ ∀ s, u < s → s < t → ¬ r.Drops k s) ∧
    (∀ {k : κ} {v : ν} {s t : ℕ}, r.eviction = .never → s ≤ t →
      (r.cache s).stored.find? k = some v → (∀ i, s ≤ i → i < t → ¬ r.Drops k i) →
      (r.cache t).stored.find? k = some v) :=
  ⟨stores_iff, keys_of_uses, stored_of_not_uses, pendingCell?_succ_cases, size_le,
    find?_of_ncard_lt, mem_keys_iff_ncard_lt, exists_lastUsed, find?_of_never⟩

/-- A run in which there is room for two keys: two are stored, the older one is read, and a third one
is stored. -/
def filledUp : Run ℕ ℕ Unit :=
  .ofList (.leastRecent 2)
    [.start 1 (some (.ok 10)), .poll 0, .start 2 (some (.ok 20)), .poll 1, .get 1,
      .start 3 (some (.ok 30)), .poll 2]

/-- The key that was read is still stored, and the other one is not, since two keys were used after
it. -/
theorem filledUp_recency_exact :
    filledUp.LastUsed 1 4 7 ∧ filledUp.LastUsed 2 3 7 ∧ filledUp.keys 7 = [3, 1] ∧
      (∃ v, (filledUp.cache 5).stored.find? 1 = some v ∧
        (filledUp.cache 7).stored.find? 1 = some v) ∧
      ¬ (filledUp.othersUsed 2 3 7).ncard < 2 := by
  obtain ⟨-, -, -, -, -, hstays, hexact, -, -⟩ := filledUp.recency_exact
  have huses : ∀ {j s}, 3 < s → s < 7 → filledUp.Uses j s → s = 4 ∧ j = 1 ∨ s = 6 ∧ j = 3 := by
    intro j s hs hs' h
    interval_cases s <;> rcases h.action with ⟨l, ha, hk⟩ | ha <;> cases ha
    · exact .inl ⟨rfl, rfl⟩
    · exact .inr ⟨rfl, (Option.some.inj hk).symm⟩
  have hdrops : ∀ s, 3 < s → s < 7 → ∀ j, ¬ filledUp.Drops j s := by
    intro s hs hs' j
    interval_cases s <;> exact id
  have hread : filledUp.LastUsed 1 4 7 := by
    refine ⟨by omega, .inr (.inr ⟨10, List.mem_singleton.mpr rfl⟩), fun {s} hs hs' h => ?_⟩
    have hj := huses (by omega) hs' h
    omega
  have hstored : filledUp.LastUsed 2 3 7 := by
    refine ⟨by omega, .inl ⟨rfl, 20, rfl⟩, fun {s} hs hs' h => ?_⟩
    have hj := huses hs hs' h
    omega
  have hone : filledUp.othersUsed 1 4 7 ⊆ {3} := by
    rintro j ⟨-, s, hs, hs', h⟩
    have hj := huses (by omega) hs' h
    exact Set.mem_singleton_iff.mpr (by omega)
  have hlt : (filledUp.othersUsed 1 4 7).ncard < max 2 1 := by
    have hle := Set.ncard_le_ncard hone (Set.finite_singleton 3)
    rw [Set.ncard_singleton] at hle
    omega
  refine ⟨hread, hstored, rfl, hstays rfl hread.uses hread.lt ?_ hlt, ?_⟩
  · exact fun s hs hs' => hdrops s (by omega) hs' 1
  · intro hn
    have hmem : 2 ∈ filledUp.keys 7 := (hexact rfl hstored hdrops).mpr hn
    exact absurd hmem (by decide)

end Run

end Cache

end RemoteTable
