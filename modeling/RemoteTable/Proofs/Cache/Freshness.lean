import RemoteTable.Proofs.Cache.History

/-!
# Dropped values never come back

Every value that a read or a lookup gets goes back to the success of an initialiser for a cell
(`Run.Source`). If it comes from the stored values, it has been stored ever since that success
(`Run.StoredSince`); if it comes from a cell, the cell had no value yet when the lookup came to it.
In both cases the cell was the pending one of the key at the moment that counts, so that whoever has
found the value was first polled after all drops of the key before that moment
(`Run.Joins.lt_of_drops`).
-/

namespace RemoteTable

namespace Cache

namespace Run

variable {κ ν ε : Type} [DecidableEq κ]

variable {r : Run κ ν ε} {l l' : LookupId} {k : κ} {d : CellId} {v : ν} {p q s t u : ℕ}

/-! ## Where a value comes from -/

/-- The value was found for the cell, at a moment `s`, by the initialiser of a lookup of the key
that was first polled, and came to the cell, at a moment `p`. -/
structure Source (r : Run κ ν ε) (k : κ) (d : CellId) (v : ν) (l : LookupId) (p s : ℕ) :
    Prop where
  /-- The lookup looks for the key. -/
  key : (r.cache p).key? l = some k
  /-- The lookup was first polled and has joined the cell. -/
  joins : r.Joins l d p
  /-- The initialiser of the lookup has ended with the value. -/
  succeeds : r.Succeeds l d v s

/-- The value was stored at a moment `s`, under a key that had no stored value, and up to a moment
`t` it was neither dropped nor replaced. -/
structure StoredSince (r : Run κ ν ε) (k : κ) (v : ν) (s t : ℕ) : Prop where
  /-- The value was stored before. -/
  lt : s < t
  /-- There was no stored value when it was stored. -/
  new : (r.cache s).stored.find? k = none
  /-- It has been there ever since. -/
  kept : ∀ {u}, s < u → u ≤ t → (r.cache u).stored.find? k = some v

/-- A key with a value that has been stored for some time was not dropped in this time. -/
theorem StoredSince.not_drops (h : r.StoredSince k v s t) (hsu : s < u) (hut : u < t) :
    ¬ r.Drops k u := by
  intro hd
  have hv : (r.cache (u + 1)).stored.find? k = some v := h.kept (by omega) (by omega)
  rw [((r.stepped u).dropped hd).2] at hv
  cases hv

/-- A stored value was put in place of its pending cell by the lookup that has found it. -/
theorem exists_storedSince (h : (r.cache t).stored.find? k = some v) :
    ∃ l d s, r.Succeeds l d v s ∧ (r.cache s).key? l = some k ∧
      ((r.cache s).prepare l).pendingCell? k = some d ∧ r.StoredSince k v s t := by
  induction t with
  | zero => cases h
  | succ t ih =>
    rcases (r.stepped t).stored_before h with hold | ⟨l, d, begun, -, ht, hk, hm, hs⟩
    · obtain ⟨l, d, s, hsucc, hk, hm, hsince⟩ := ih hold
      have hst := hsince.lt
      refine ⟨l, d, s, hsucc, hk, hm, by omega, hsince.new, ?_⟩
      intro u hsu hut
      rcases Nat.lt_or_eq_of_le hut with hlt | rfl
      · exact hsince.kept hsu (by omega)
      · exact h
    · refine ⟨l, d, t, succeeds_of_turn ht hs, hk, hm, by omega,
        (r.sound t).stored_of_prepare hm, ?_⟩
      intro u htu hut
      obtain rfl : u = t + 1 := by omega
      exact h

/-- A stored value was found by a lookup that was first polled after all drops of the key before. -/
theorem exists_source_of_stored (h : (r.cache t).stored.find? k = some v) :
    ∃ l d p s, r.Source k d v l p s ∧ r.StoredSince k v s t ∧
      ∀ {T}, T < t → r.Drops k T → T < p := by
  obtain ⟨l, d, s, hsucc, hk, hm, hsince⟩ := exists_storedSince h
  obtain ⟨p, hps, hj⟩ := hsucc.exists_joins
  refine ⟨l, d, p, s, ⟨key?_of_le hps hj.2.1 hk, hj, hsucc⟩, hsince, ?_⟩
  intro T hTt hd
  apply hj.lt_of_drops hm _ hd
  -- the value was stored by a poll, and was not dropped since
  rcases Nat.lt_trichotomy T s with hlt | rfl | hlt
  · exact hlt
  · rw [Drops, hsucc.2.1.action] at hd
    exact hd.elim
  · exact absurd hd (hsince.not_drops hlt hTt)

/-- The value that a lookup returns after it has joined a cell was found no earlier, by a lookup that
was first polled after all drops of the key before the first poll of the lookup that returns it. -/
theorem Joins.exists_source (hj : r.Joins l d q) (hk : (r.cache q).key? l = some k)
    (h : r.Returns l (.ok v) t) :
    ∃ l' p s, r.Source k d v l' p s ∧ q ≤ s ∧ s ≤ t ∧ ∀ {T}, T < q → r.Drops k T → T < p := by
  obtain ⟨l', s, hst, hsucc⟩ := h.of_joins hj
  obtain ⟨p, -, hj'⟩ := hsucc.exists_joins
  exact ⟨l', p, s, ⟨hj.key?_eq hj' hk, hj', hsucc⟩, hsucc.le_of_joins hj, hst,
    fun hTq hd => hj'.lt_of_drops (hj.mapped hk) hTq hd⟩

/-! ## What a lookup is given -/

/-- A read finds what is stored. -/
theorem reads_iff : r.Reads k v t ↔ r.action t = .get k ∧ (r.cache t).stored.find? k = some v := by
  unfold Reads shown
  constructor
  · intro h
    cases ha : r.action t with
    | get key =>
      simp only [ha, step, get, List.mem_singleton, Observation.read.injEq] at h
      obtain ⟨rfl, hv⟩ := h
      exact ⟨rfl, hv.symm⟩
    | poll l => simp [ha, step] at h
    | start key gate => simp [ha, step] at h
    | decideGate l outcome => simp [ha, step] at h
    | cancel l => simp [ha, step] at h
    | invalidate key => simp [ha, step] at h
    | clear => simp [ha, step] at h
  · rintro ⟨ha, hv⟩
    simp only [ha, step, get, hv, List.mem_singleton]

/-- A first poll that finds a stored value returns it. -/
theorem FirstPolled.returns (h : r.FirstPolled l t) (hk : (r.cache t).key? l = some k)
    (hv : (r.cache t).stored.find? k = some v) : r.Returns l (.ok v) t := by
  obtain ⟨lookup, hl, hfresh⟩ := Option.map_eq_some_iff.mp h.2
  rw [key?_of_getElem? hl, Option.some_inj] at hk
  subst hk
  simp [Returns, shown, h.1, step, poll, hl, hfresh, firstPoll, hv]

/-- A lookup that is attached to a cell with a value returns it when it is polled. -/
theorem returns_of_value (h : r.action t = .poll l) (ha : (r.cache t).AttachedTo l d)
    (hv : ((r.cache t).cellAt d).value = some v) : r.Returns l (.ok v) t := by
  rcases ha with hw | hr
  · obtain ⟨lookup, hl, hwaiting⟩ := Option.map_eq_some_iff.mp hw
    have hcell := getElem?_cells ((r.sound t).attached_lt (Or.inl hw))
    simp [Returns, shown, h, step, poll, hl, hwaiting, pollWaiting, hcell, hv, returnValue]
  · -- nobody runs an initialiser for a cell with a value
    rw [(r.sound t).value_of_owner ((r.sound t).owner_of_running hr)] at hv
    cases hv

/-- A running initialiser that has come to a value ends with it when its lookup is polled, even if
its cell is not the pending one any more. -/
theorem succeeds_of_gate {lookup : Lookup κ ν ε} (h : r.action t = .poll l)
    (hl : (r.cache t).lookups[l]? = some lookup) (hs : lookup.stage = .running d)
    (hg : lookup.gate = some (.ok v)) : r.Succeeds l d v t := by
  have hrunning : (r.cache t).stage? l = some (.running d) := by
    rw [stage?_of_getElem? hl, hs]
  refine ⟨Or.inl ⟨d, hrunning⟩, ?_, Or.inr (Or.inr hrunning)⟩
  simp [Returns, shown, h, step, poll, hl, hs, continueRunning, hg, returnValue]

/-! ## Freshness -/

/-- In every run, no value that was found by a lookup from before a drop of its key is seen after
this drop, although the older lookups still get the values of their own cells:

* a value that is read was stored by a lookup that was first polled after all drops of the key
  before, and it has been stored ever since;
* so was the value that a lookup is answered with at its first poll; the value that a lookup returns
  later was found for its own cell, no earlier than this first poll, by a lookup that was first
  polled after all drops of the key before the first poll;
* a lookup whose key has a stored value returns it at its first poll;
* whatever has been dropped, an initialiser that has come to a value ends with it when its lookup is
  polled, and fills its cell, and a lookup at a cell with a value returns it when it is polled. -/
theorem never_stale (r : Run κ ν ε) :
    (∀ {k : κ} {v : ν} {t : ℕ}, r.Reads k v t →
      ∃ l d p s, r.Source k d v l p s ∧ r.StoredSince k v s t ∧
        ∀ {T : ℕ}, T < t → r.Drops k T → T < p) ∧
    (∀ {l : LookupId} {k : κ} {v : ν} {q t : ℕ}, r.FirstPolled l q →
      (r.cache q).key? l = some k → r.Returns l (.ok v) t →
      ∃ l' d p s, r.Source k d v l' p s ∧ (∀ {T : ℕ}, T < q → r.Drops k T → T < p) ∧
        (q = t ∧ r.StoredSince k v s t ∨ r.Joins l d q ∧ q ≤ s ∧ s ≤ t)) ∧
    (∀ {l : LookupId} {k : κ} {v : ν} {q : ℕ}, r.FirstPolled l q →
      (r.cache q).key? l = some k → (r.cache q).stored.find? k = some v →
      r.Returns l (.ok v) q) ∧
    (∀ {l : LookupId} {d : CellId} {v : ν} {t : ℕ}, (r.cache t).AttachedTo l d →
      ((r.cache t).cellAt d).value = some v → r.action t = .poll l → r.Returns l (.ok v) t) ∧
    (∀ {l : LookupId} {lookup : Lookup κ ν ε} {d : CellId} {v : ν} {t : ℕ},
      (r.cache t).lookups[l]? = some lookup → lookup.stage = .running d →
      lookup.gate = some (.ok v) → r.action t = .poll l →
      r.Returns l (.ok v) t ∧ ((r.cache (t + 1)).cellAt d).value = some v) := by
  refine ⟨fun h => exists_source_of_stored (reads_iff.mp h).2, ?_,
    fun hf hk hv => hf.returns hk hv, fun ha hv h => returns_of_value h ha hv, ?_⟩
  · intro l k v q t hf hk h
    rcases h.ok_cases with ⟨hf', k', hk', hv⟩ | ⟨d, p, hpt, hj, -⟩
    · obtain rfl := hf.unique hf'
      rw [hk, Option.some_inj] at hk'
      subst hk'
      obtain ⟨l', d, p, s, hsource, hsince, hdrops⟩ := exists_source_of_stored hv
      exact ⟨l', d, p, s, hsource, hdrops, Or.inl ⟨rfl, hsince⟩⟩
    · obtain rfl := hf.unique hj.firstPolled
      obtain ⟨l', p, s, hsource, hqs, hst, hdrops⟩ := hj.exists_source hk h
      exact ⟨l', d, p, s, hsource, hdrops, Or.inr ⟨hj, hqs, hst⟩⟩
  · intro l lookup d v t hl hs hg h
    have hsucc := succeeds_of_gate h hl hs hg
    obtain ⟨begun, -, hval⟩ := hsucc.turn
    exact ⟨hsucc.2.1, hval⟩

/-- A run in which a key is dropped while a lookup runs its initialiser, and this lookup ends after
a newer one has stored its value. -/
def overtaken : Run ℕ ℕ Unit :=
  .ofList .never
    [.start 7 none, .poll 0, .invalidate 7, .start 7 (some (.ok 6)), .poll 1,
      .decideGate 0 (.ok 5), .poll 0, .get 7, .start 7 none, .poll 2]

/-- The older lookup returns its own value; a read and a lookup that come later get the value of the
newer one, which was first polled after the drop. -/
theorem overtaken_never_stale :
    overtaken.Drops 7 2 ∧ overtaken.Returns 0 (.ok 5) 6 ∧ overtaken.Reads 7 6 7 ∧
      (∃ l d p s, overtaken.Source 7 d 6 l p s ∧ overtaken.StoredSince 7 6 s 7 ∧ 2 < p) ∧
      overtaken.FirstPolled 2 9 ∧ overtaken.Returns 2 (.ok 6) 9 ∧
      ∃ l d p s, overtaken.Source 7 d 6 l p s ∧ 2 < p := by
  have hd : overtaken.Drops 7 2 := by decide
  have hold : overtaken.Returns 0 (.ok 5) 6 := List.mem_singleton.mpr rfl
  have hread : overtaken.Reads 7 6 7 := List.mem_singleton.mpr rfl
  have hf : overtaken.FirstPolled 2 9 := ⟨rfl, rfl⟩
  have hhit : overtaken.Returns 2 (.ok 6) 9 := overtaken.never_stale.2.2.1 hf rfl rfl
  obtain ⟨l, d, p, s, hsource, hsince, hdrops⟩ := overtaken.never_stale.1 hread
  obtain ⟨l', d', p', s', hsource', hdrops', -⟩ := overtaken.never_stale.2.1 hf rfl hhit
  exact ⟨hd, hold, hread, ⟨l, d, p, s, hsource, hsince, hdrops (by decide) hd⟩, hf, hhit,
    l', d', p', s', hsource', hdrops' (by decide) hd⟩

end Run

end Cache

end RemoteTable
