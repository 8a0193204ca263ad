import Mathlib.Data.Nat.Count
import RemoteTable.Proofs.Cache.History

/-!
# Lookups of one key share one initialiser

A lookup comes into being with its first poll: before it, nothing of it has been carried out. The
drops of a key cut a run into periods, and two initialisers that are at work for the same key at one
moment belong to lookups of different periods (`Run.Busy.eq_of_period_eq`). The reason is that a
lookup that comes while an older one is attached joins the same cell
(`Run.Joins.eq_of_attached_of_not_drops`), and that a cell has one turn.

No lookup begins its initialiser twice (`Run.countP_isBegan_le_one`), at most one initialiser
succeeds for a cell (`Run.Succeeds.unique`), and its value is what every lookup of the cell returns
(`Run.Returns.ok_cases`).
-/

namespace RemoteTable

namespace Cache

variable {κ ν ε : Type} [DecidableEq κ]

/-! ## An initialiser begins once -/

/-- Whether the initialiser of this lookup is seen to begin. -/
def Observation.isBegan (l : LookupId) : Observation κ ν ε → Bool
  | .polled (.began x) => x == l
  | _ => false

/-- A lookup that runs its initialiser, or has ended, does not wait for the turn any more. -/
def PastWaiting (c : Cache κ ν ε) (l : LookupId) : Prop :=
  (∃ d, c.stage? l = some (.running d)) ∨ c.stage? l = some .ended

section Began

variable {c c' : Cache κ ν ε} {l : LookupId} {action : Action κ ν ε}
  {seen : List (Observation κ ν ε)}

/-- Who gets the turn begins, and was not past waiting; who has kept it does not begin again. -/
theorem Turn.began_cases {d : CellId} {begun : List (CacheEvent ν ε)} (ht : Turn c l d begun) :
    begun = [.began l] ∧ ¬ c.PastWaiting l ∨ begun = [] ∧ c.PastWaiting l := by
  cases ht with
  | taken hs => exact Or.inl ⟨rfl, by rintro (⟨e, h⟩ | h) <;> rw [hs] at h <;> cases h⟩
  | handed hs => exact Or.inl ⟨rfl, by rintro (⟨e, h⟩ | h) <;> rw [hs] at h <;> cases h⟩
  | kept hs => exact Or.inr ⟨rfl, Or.inl ⟨d, hs⟩⟩

/-- A lookup that is past waiting stays so, and only one that is not begins its initialiser, once,
and is past waiting then. -/
def BeginsOnce (c : Cache κ ν ε) (l : LookupId) (seen : List (Observation κ ν ε))
    (c' : Cache κ ν ε) : Prop :=
  seen.countP (Observation.isBegan l) = 0 ∧ (c.PastWaiting l → c'.PastWaiting l) ∨
    seen.countP (Observation.isBegan l) = 1 ∧ ¬ c.PastWaiting l ∧ c'.PastWaiting l

/-- A lookup that has had the turn and ends has begun its initialiser in this poll or before. -/
theorem Turn.beginsOnce {d : CellId} {begun : List (CacheEvent ν ε)} {outcome : Except ε ν}
    (ht : Turn c l d begun) (hs : c'.stage? l = some .ended) :
    BeginsOnce c l ((begun ++ [CacheEvent.returned l outcome]).map .polled) c' := by
  rcases ht.began_cases with ⟨rfl, hpast⟩ | ⟨rfl, -⟩
  · exact Or.inr ⟨by simp [Observation.isBegan], hpast, Or.inr hs⟩
  · exact Or.inl ⟨by simp [Observation.isBegan], fun _ => Or.inr hs⟩

/-- A poll begins one initialiser at most, that of the polled lookup. -/
theorem Polled.beginsOnce {shown : List (CacheEvent ν ε)} (hp : Polled c l shown c') :
    BeginsOnce c l (shown.map .polled) c' := by
  have hfresh : c.stage? l = some .fresh → ¬ c.PastWaiting l := by
    rintro hs (⟨e, h⟩ | h) <;> rw [hs] at h <;> cases h
  cases hp with
  | idle => exact Or.inl ⟨rfl, id⟩
  | hit hs => exact Or.inl ⟨rfl, fun h => absurd h (hfresh hs)⟩
  | wait hs => exact Or.inl ⟨rfl, fun h => absurd h (hfresh hs)⟩
  | receive _ _ _ hsh => exact Or.inl ⟨rfl, fun _ => Or.inr hsh.stage?_self⟩
  | begin ht hsh =>
    rcases ht.began_cases with ⟨-, hpast⟩ | ⟨h, -⟩
    · exact Or.inr ⟨by simp [Observation.isBegan], hpast, Or.inl ⟨_, hsh.stage?_self⟩⟩
    · cases h
  | store ht _ _ hsh => exact ht.beginsOnce hsh.stage?_self
  | orphan ht _ _ hsh => exact ht.beginsOnce hsh.stage?_self
  | forget ht _ _ _ hsh => exact ht.beginsOnce hsh.stage?_self
  | fail ht _ _ hsh => exact ht.beginsOnce hsh.stage?_self

/-- What is seen of the beginning of an initialiser is seen in a poll of its lookup. -/
theorem Stepped.countP_isBegan_of_ne (hs : Stepped c action seen c') (hne : action ≠ .poll l) :
    seen.countP (Observation.isBegan l) = 0 := by
  rw [List.countP_eq_zero]
  intro o ho hb
  cases o with
  | read => cases hb
  | polled event =>
    cases event with
    | returned => cases hb
    | began x =>
      have hx : x = l := by simpa [Observation.isBegan] using hb
      cases hs with
      | quiet _ _ hno => exact hno _ ho
      | polled hp =>
        have hmem := (hp.of_began (x := x) (by simpa using ho)).1
        rw [← hmem, hx] at hne
        exact hne rfl
      | cancelled => cases ho

/-- Every step leaves it so that an initialiser begins once. -/
theorem Stepped.beginsOnce (hs : Stepped c action seen c') (l : LookupId) :
    BeginsOnce c l seen c' := by
  by_cases hpoll : action = .poll l
  · subst hpoll
    obtain ⟨shown, hp, rfl⟩ := hs.polled_of_poll
    exact hp.beginsOnce
  · refine Or.inl ⟨hs.countP_isBegan_of_ne hpoll, fun hpast => ?_⟩
    by_cases hcancel : action = .cancel l
    · subst hcancel
      rcases hpast with ⟨d, hr⟩ | he
      · exact Or.inr (hs.stage?_of_cancel hr)
      · exact Or.inr (hs.stage?_of_cancel he)
    · rcases hpast with ⟨d, hr⟩ | he
      · exact Or.inl ⟨d, hs.stage?_eq hpoll hcancel hr⟩
      · exact Or.inr (hs.stage?_eq hpoll hcancel he)

end Began

namespace Run

variable {r : Run κ ν ε} {l l' : LookupId} {k : κ} {p p' s t u : ℕ}

/-- As long as a lookup has not begun its initialiser nothing is seen of it, and it begins once. -/
theorem countP_isBegan (r : Run κ ν ε) (l : LookupId) (t : ℕ) :
    (r.log t).countP (Observation.isBegan l) = 0 ∨
      (r.log t).countP (Observation.isBegan l) = 1 ∧ (r.cache t).PastWaiting l := by
  induction t with
  | zero => exact Or.inl rfl
  | succ t ih =>
    rw [log_succ, List.countP_append]
    rcases (r.stepped t).beginsOnce l with ⟨h0, hkeep⟩ | ⟨h1, hnot, hpast⟩
    · rw [h0, Nat.add_zero]
      rcases ih with ih | ⟨ih, hpast⟩
      · exact Or.inl ih
      · exact Or.inr ⟨ih, hkeep hpast⟩
    · rcases ih with ih | ⟨-, hpast'⟩
      · exact Or.inr ⟨by rw [ih, h1], hpast⟩
      · exact absurd hpast' hnot

/-- An initialiser begins at most once. -/
theorem countP_isBegan_le_one (r : Run κ ν ε) (l : LookupId) (t : ℕ) :
    (r.log t).countP (Observation.isBegan l) ≤ 1 := by
  rcases r.countP_isBegan l t with h | ⟨h, -⟩
  · rw [h]
    exact Nat.zero_le 1
  · exact Nat.le_of_eq h

/-! ## Periods of a key -/

/-- The period of a key that a moment belongs to: the number of times that the key was dropped
before. -/
def period (r : Run κ ν ε) (k : κ) (t : ℕ) : ℕ :=
  Nat.count (r.Drops k) t

/-- A drop of the key ends its period. -/
theorem period_lt_of_drops (hsu : s ≤ u) (hut : u < t) (hd : r.Drops k u) :
    r.period k s < r.period k t := by
  calc r.period k s ≤ r.period k u := Nat.count_monotone _ hsu
    _ < r.period k t := Nat.count_strict_mono hd hut

/-- Before the first drop of a key there is one period. -/
theorem period_eq_zero (h : ∀ u, u < t → ¬ r.Drops k u) : r.period k t = 0 := by
  rw [period, Nat.count_eq_card_filter_range, Finset.card_eq_zero, Finset.filter_eq_empty_iff]
  intro u hu
  exact h u (Finset.mem_range.mp hu)

/-! ## One turn for each key and period -/

/-- The lookup of an initialiser at work has joined a cell that has no value. It takes the turn there
just now, or it has come before, and has the turn. -/
theorem Busy.exists_joins (h : r.Busy l t) :
    ∃ d p, r.Joins l d p ∧ ((r.cache t).cellAt d).value = none ∧
      (p = t ∧ ((r.cache t).cellAt d).owner = none ∨
        p < t ∧ (r.cache t).AttachedTo l d ∧ ((r.cache t).cellAt d).owner = some l) := by
  have hturn : (∃ d, r.Joins l d t ∧ ((r.cache t).cellAt d).value = none ∧
        ((r.cache t).cellAt d).owner = none) ∨
      ∃ d, (r.cache t).AttachedTo l d ∧ ((r.cache t).cellAt d).owner = some l := by
    rcases h with ⟨d, hr⟩ | hb
    · exact Or.inr ⟨d, Or.inr hr, (r.sound t).owner_of_running hr⟩
    · obtain ⟨haction, d, ht⟩ := hb.turn
      cases ht with
      | taken hs hk hn hm ho =>
        have hj : r.Joins l d t := ⟨haction, (joins_iff hs hk).mpr ⟨hn, hm⟩⟩
        exact Or.inl ⟨d, hj, hj.value, ho⟩
      | handed hw ho => exact Or.inr ⟨d, Or.inl hw, ho⟩
  rcases hturn with ⟨d, hj, hv, ho⟩ | ⟨d, ha, ho⟩
  · exact ⟨d, t, hj, hv, Or.inl ⟨rfl, ho⟩⟩
  · obtain ⟨p, hpt, hj, -⟩ := Run.exists_joins ha
    exact ⟨d, p, hj, (r.sound t).value_of_owner ho, Or.inr ⟨hpt, ha, ho⟩⟩

/-- An initialiser at work belongs to a lookup that was polled before, or is polled now. -/
theorem Busy.exists_firstPolled (h : r.Busy l t) : ∃ p, p ≤ t ∧ r.FirstPolled l p := by
  obtain ⟨d, p, hj, -, hturn⟩ := h.exists_joins
  refine ⟨p, ?_, hj.firstPolled⟩
  rcases hturn with ⟨he, -⟩ | ⟨hlt, -⟩ <;> omega

/-- Two initialisers at work for one key belong to lookups that were not polled first without a drop
of the key in between: the younger one would have joined the cell of the older one. -/
theorem Busy.exists_drops (hb : r.Busy l t) (hb' : r.Busy l' t)
    (hk : (r.cache t).key? l = some k) (hk' : (r.cache t).key? l' = some k)
    (hp : r.FirstPolled l p) (hp' : r.FirstPolled l' p') (hlt : p < p') :
    ∃ u, p ≤ u ∧ u < p' ∧ r.Drops k u := by
  obtain ⟨d, q, hj, hv, hturn⟩ := hb.exists_joins
  obtain ⟨d', q', hj', -, hturn'⟩ := hb'.exists_joins
  obtain rfl := hp.unique hj.firstPolled
  obtain rfl := hp'.unique hj'.firstPolled
  have hpt' : p' ≤ t := by
    rcases hturn' with ⟨he, -⟩ | ⟨hlt', -⟩ <;> omega
  -- the older lookup has joined its cell before, and its turn is written there
  obtain ⟨ha, ho⟩ : (r.cache t).AttachedTo l d ∧ ((r.cache t).cellAt d).owner = some l := by
    rcases hturn with ⟨he, -⟩ | ⟨-, h⟩
    · omega
    · exact h
  -- without a drop they would share the cell, and the turn would be with both of them
  by_contra hno
  push Not at hno
  have hd := hj.eq_of_attached_of_not_drops hj' hlt (key?_of_le (by omega) hp.2 hk)
    (key?_of_le hpt' hp'.2 hk') (hj.attached_of_le hlt hpt' ha) (value_none_of_le hpt' hv) hno
  subst hd
  rcases hturn' with ⟨-, ho'⟩ | ⟨-, -, ho'⟩ <;> rw [ho] at ho'
  · cases ho'
  · rw [Option.some_inj.mp ho'] at hp
    have he := hp.unique hp'
    omega

/-- Of the lookups of one key and period, one initialiser at most is at work. -/
theorem Busy.eq_of_period_eq (hb : r.Busy l t) (hb' : r.Busy l' t)
    (hk : (r.cache t).key? l = some k) (hk' : (r.cache t).key? l' = some k)
    (hp : r.FirstPolled l p) (hp' : r.FirstPolled l' p') (h : r.period k p = r.period k p') :
    l = l' := by
  rcases Nat.lt_trichotomy p p' with hlt | rfl | hlt
  · obtain ⟨u, hpu, hup, hd⟩ := hb.exists_drops hb' hk hk' hp hp' hlt
    exact absurd h (Nat.ne_of_lt (period_lt_of_drops hpu hup hd))
  · exact hp.eq_lookup hp'
  · obtain ⟨u, hpu, hup, hd⟩ := hb'.exists_drops hb hk' hk hp' hp hlt
    exact absurd h.symm (Nat.ne_of_lt (period_lt_of_drops hpu hup hd))

/-- In every run, the lookups of a key share the run of one initialiser:

* two initialisers at work for one key at one moment belong to lookups that were first polled in
  different periods of the key, so that there are no two before its first drop;
* no lookup begins its initialiser twice;
* at most one initialiser succeeds for a cell;
* a lookup that has joined a cell and returns a value returns the one that the initialiser which has
  succeeded for this cell has found. -/
theorem shares_initialiser (r : Run κ ν ε) :
    (∀ {l l' : LookupId} {k : κ} {t : ℕ}, r.Busy l t → r.Busy l' t →
      (r.cache t).key? l = some k → (r.cache t).key? l' = some k → l ≠ l' →
      ∃ p p', p ≤ t ∧ p' ≤ t ∧ r.FirstPolled l p ∧ r.FirstPolled l' p' ∧
        r.period k p ≠ r.period k p') ∧
    (∀ {l l' : LookupId} {k : κ} {t : ℕ}, (∀ u, u < t → ¬ r.Drops k u) → r.Busy l t →
      r.Busy l' t → (r.cache t).key? l = some k → (r.cache t).key? l' = some k → l = l') ∧
    (∀ (l : LookupId) (t : ℕ), (r.log t).countP (Observation.isBegan l) ≤ 1) ∧
    (∀ {l l' : LookupId} {d : CellId} {v v' : ν} {s t : ℕ}, r.Succeeds l d v s →
      r.Succeeds l' d v' t → l = l' ∧ v = v' ∧ s = t) ∧
    (∀ {l : LookupId} {d : CellId} {v : ν} {p t : ℕ}, r.Joins l d p → r.Returns l (.ok v) t →
      ∃ l' s, s ≤ t ∧ r.Succeeds l' d v s) := by
  refine ⟨?_, ?_, r.countP_isBegan_le_one, fun h h' => h.unique h', fun hj h => h.of_joins hj⟩
  · intro l l' k t hb hb' hk hk' hne
    obtain ⟨p, hpt, hp⟩ := hb.exists_firstPolled
    obtain ⟨p', hpt', hp'⟩ := hb'.exists_firstPolled
    exact ⟨p, p', hpt, hpt', hp, hp', fun h => hne (hb.eq_of_period_eq hb' hk hk' hp hp' h)⟩
  · intro l l' k t hd hb hb' hk hk'
    obtain ⟨p, hpt, hp⟩ := hb.exists_firstPolled
    obtain ⟨p', hpt', hp'⟩ := hb'.exists_firstPolled
    have hperiod : r.period k p = r.period k p' := by
      rw [period_eq_zero fun u hu => hd u (by omega), period_eq_zero fun u hu => hd u (by omega)]
    exact hb.eq_of_period_eq hb' hk hk' hp hp' hperiod

/-- A run in which a key is dropped while one lookup runs its initialiser and another one waits for
it. A third lookup begins to run its own one, and then the first two return. -/
def dropped : Run ℕ ℕ Unit :=
  .ofList (.leastRecent 1)
    [.start 7 none, .start 7 none, .poll 0, .poll 1, .invalidate 7, .start 7 none, .poll 2,
      .decideGate 0 (.ok 5), .poll 0, .poll 1]

/-- The first and the third lookup are at work at once, in different periods, and the second one
returns the value that the first one has found. -/
theorem dropped_shares_initialiser :
    dropped.Busy 0 6 ∧ dropped.Busy 2 6 ∧
      (∃ p p', p ≤ 6 ∧ p' ≤ 6 ∧ dropped.FirstPolled 0 p ∧ dropped.FirstPolled 2 p' ∧
        dropped.period 7 p ≠ dropped.period 7 p') ∧
      dropped.Joins 1 0 3 ∧ dropped.Returns 1 (.ok 5) 9 ∧
      ∃ l' s, s ≤ 9 ∧ dropped.Succeeds l' 0 5 s := by
  have hb : dropped.Busy 0 6 := Or.inl ⟨0, rfl⟩
  have hb' : dropped.Busy 2 6 := Or.inr (List.mem_singleton.mpr rfl)
  have hj : dropped.Joins 1 0 3 := ⟨rfl, rfl, 7, rfl, rfl, rfl⟩
  have hr : dropped.Returns 1 (.ok 5) 9 := List.mem_singleton.mpr rfl
  obtain ⟨hperiod, -, -, -, hvalue⟩ := dropped.shares_initialiser
  exact ⟨hb, hb', hperiod hb hb' rfl rfl (by decide), hj, hr, hvalue hj hr⟩

end Run

end Cache

end RemoteTable
