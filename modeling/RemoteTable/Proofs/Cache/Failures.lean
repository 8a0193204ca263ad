import RemoteTable.Proofs.Cache.Edits
import RemoteTable.Proofs.Cache.History

/-!
# Failures stay with their lookup

A failure that a lookup returns is what its own initialiser was decided to end with
(`Run.Returns.gate?_of_error`, `Run.exists_decides`), after the initialiser has begun
(`Run.Returns.exists_begins`). A lookup that fails or is cancelled (`Run.Leaves`) stores nothing and
drops nothing: the stored values stay as they are, other keys keep their pending cells, and so does
its own key as long as another lookup is attached to the cell (`Run.Leaves.mapped`), so that whoever
comes then joins this cell (`Run.joins_of_mapped`).
-/

namespace RemoteTable

namespace Cache

variable {κ ν ε : Type} [DecidableEq κ]

/-! ## Outcomes of initialisers -/

/-- What the initialisers end with, once that is decided, in the order of the lookups. -/
def gates (c : Cache κ ν ε) : List (Option (Except ε ν)) :=
  c.lookups.map Lookup.gate

/-- What the initialiser of a lookup ends with, once that is decided. -/
def gate? (c : Cache κ ν ε) (l : LookupId) : Option (Except ε ν) :=
  c.gates[l]?.join

omit [DecidableEq κ] in
theorem gate?_of_getElem? {c : Cache κ ν ε} {l : LookupId} {lookup : Lookup κ ν ε}
    (h : c.lookups[l]? = some lookup) : c.gate? l = lookup.gate := by
  simp [gate?, gates, h]

omit [DecidableEq κ] in
/-- The stage of a lookup does not matter for what its initialiser ends with. -/
theorem gates_setStage (c : Cache κ ν ε) (l : LookupId) (s : Stage) :
    (c.setStage l s).gates = c.gates := by
  apply List.ext_getElem?
  intro x
  by_cases hx : l = x
  · cases h : c.lookups[x]? <;> simp [gates, setStage, hx, h]
  · simp [gates, setStage, hx]

/-- No edit decides what an initialiser ends with. -/
theorem Edited.gates {c c' : Cache κ ν ε} (h : Edited c c') : c'.gates = c.gates := by
  induction h with
  | refl => rfl
  | setStage _ l s ih => exact (gates_setStage _ l s).trans ih
  | modifyCell _ _ _ ih | removePending _ _ ih | store _ _ _ ih => exact ih

theorem gates_attach (c : Cache κ ν ε) (key : κ) : (c.attach key).1.gates = c.gates := by
  rw [gates, lookups_attach, gates]

/-- A poll decides nothing about initialisers. -/
theorem gates_poll (c : Cache κ ν ε) (l : LookupId) : (c.poll l).1.gates = c.gates := by
  rcases c.poll_cases l with ⟨-, h⟩ | ⟨key, -, -, ⟨_, -, h⟩ | ⟨-, h⟩⟩
  · exact h.gates
  · rw [h]
    exact gates_setStage c l .ended
  · exact h.gates.trans (gates_attach c key)

/-- An action decides what the initialiser of a lookup ends with: it starts the lookup with the
outcome, or it gives the outcome later. -/
def Action.Decides (c : Cache κ ν ε) (l : LookupId) (outcome : Except ε ν) (action : Action κ ν ε) :
    Prop :=
  action = .decideGate l outcome ∨
    l = c.lookups.length ∧ ∃ key, action = .start key (some outcome)

/-- What an initialiser ends with was decided by an action that names its lookup, and by no other
one since. -/
theorem decides_of_gate?_step {c : Cache κ ν ε} {action : Action κ ν ε} {l : LookupId}
    {outcome : Except ε ν} (h : (c.step action).1.gate? l = some outcome) :
    action.Decides c l outcome ∨
      c.gate? l = some outcome ∧ ∀ other, ¬ action.Decides c l other := by
  unfold gate? at h ⊢
  cases action with
  | start key gate =>
    by_cases hl : l = c.lookups.length
    · subst hl
      have hgate : gate = some outcome := by simpa [step, start, gates] using h
      exact Or.inl (Or.inr ⟨rfl, key, by rw [hgate]⟩)
    · refine Or.inr ⟨?_, ?_⟩
      · rw [gates, List.getElem?_map, step, getElem?_lookups_start, if_neg hl,
          ← List.getElem?_map] at h
        exact h
      · rintro other (h' | ⟨h', -⟩)
        · cases h'
        · exact hl h'
  | decideGate x o =>
    by_cases hx : x = l
    · subst hx
      cases hlookup : c.lookups[x]? with
      | none => simp [step, decideGate, gates, hlookup] at h
      | some lookup =>
        have ho : o = outcome := by simpa [step, decideGate, gates, hlookup] using h
        exact Or.inl (Or.inl (by rw [ho]))
    · refine Or.inr ⟨by simpa [step, decideGate, gates, hx] using h, ?_⟩
      rintro other (h' | ⟨-, key, h'⟩)
      · exact hx (Action.decideGate.inj h').1
      · cases h'
  | poll x =>
    rw [step, gates_poll] at h
    exact Or.inr ⟨h, by rintro other (h' | ⟨-, key, h'⟩) <;> cases h'⟩
  | cancel x =>
    rw [step, (edited_cancel c x).gates] at h
    exact Or.inr ⟨h, by rintro other (h' | ⟨-, key, h'⟩) <;> cases h'⟩
  | get key => exact Or.inr ⟨h, by rintro other (h' | ⟨-, key, h'⟩) <;> cases h'⟩
  | invalidate key => exact Or.inr ⟨h, by rintro other (h' | ⟨-, key, h'⟩) <;> cases h'⟩
  | clear => exact Or.inr ⟨h, by rintro other (h' | ⟨-, key, h'⟩) <;> cases h'⟩

/-! ## Who returns a failure -/

section Returned

variable {c : Cache κ ν ε} {l x : LookupId} {lookup : Lookup κ ν ε} {d : CellId} {error : ε}

/-- A failure that a running lookup returns is that of its own initialiser. -/
theorem gate_of_returned_continueRunning
    (h : .returned x (.error error) ∈ (c.continueRunning l lookup d).2) :
    lookup.gate = some (.error error) := by
  unfold continueRunning at h
  split at h
  · cases h
  · simp [returnValue] at h
  · rename_i hgate
    obtain ⟨-, rfl⟩ : x = l ∧ error = _ := by simpa [returnError] using h
    exact hgate

theorem gate_of_returned_beginRunning
    (h : .returned x (.error error) ∈ (c.beginRunning l lookup d).2) :
    lookup.gate = some (.error error) := by
  rcases List.mem_cons.mp h with h | h
  · cases h
  · exact gate_of_returned_continueRunning h

theorem gate_of_returned_arrive (h : .returned x (.error error) ∈ (c.arrive l lookup d).2) :
    lookup.gate = some (.error error) := by
  unfold arrive at h
  split at h
  · cases h
  · split at h
    · simp [returnValue] at h
    · exact gate_of_returned_beginRunning h
    · cases h

theorem gate_of_returned_pollWaiting
    (h : .returned x (.error error) ∈ (c.pollWaiting l lookup d).2) :
    lookup.gate = some (.error error) := by
  unfold pollWaiting at h
  split at h
  · cases h
  · split at h
    · simp [returnValue] at h
    · split at h
      · exact gate_of_returned_beginRunning h
      · cases h

/-- A poll shows a failure only if the initialiser of the polled lookup was decided to end with
it. -/
theorem gate?_of_returned_poll (h : .returned x (.error error) ∈ (c.poll l).2) :
    c.gate? l = some (.error error) := by
  unfold poll at h
  split at h
  case h_1 => cases h
  case h_2 lookup hl =>
    rw [gate?_of_getElem? hl]
    split at h
    · unfold firstPoll at h
      split at h
      · simp at h
      · exact gate_of_returned_arrive h
    · exact gate_of_returned_pollWaiting h
    · exact gate_of_returned_continueRunning h
    · cases h

end Returned

/-! ## One step -/

section Step

variable {c c' : Cache κ ν ε} {action : Action κ ν ε} {seen : List (Observation κ ν ε)}

/-- A lookup runs its initialiser only after the initialiser was seen to begin. -/
theorem Stepped.running_before (hs : Stepped c action seen c') {l : LookupId} {d : CellId}
    (h : c'.stage? l = some (.running d)) :
    c.stage? l = some (.running d) ∨ .polled (.began l) ∈ seen := by
  cases hs with
  | quiet _ _ _ q =>
    cases hold : c.stage? l with
    | none => cases q.stage_new hold h
    | some s => exact Or.inl (by rw [← q.stage hold, h])
  | @polled x shown _ hp =>
    by_cases hx : l = x
    · subst hx
      have hended : c'.stage? l ≠ some .ended := by
        rw [h]
        exact nofun
      cases hp with
      | idle => exact Or.inl h
      | begin => exact Or.inr (List.mem_singleton.mpr rfl)
      | wait _ _ _ _ _ hsh =>
        rw [hsh.stage?_self] at h
        cases h
      | hit _ _ _ hsh => exact absurd hsh.stage?_self hended
      | receive _ _ _ hsh => exact absurd hsh.stage?_self hended
      | store _ _ _ hsh => exact absurd hsh.stage?_self hended
      | orphan _ _ _ hsh => exact absurd hsh.stage?_self hended
      | forget _ _ _ _ hsh => exact absurd hsh.stage?_self hended
      | fail _ _ _ hsh => exact absurd hsh.stage?_self hended
    · rw [hp.stage?_of_ne hx] at h
      exact Or.inl h
  | @cancelled x _ hc =>
    rcases hc.shift with ⟨rfl, -⟩ | ⟨e, cell, hsh⟩
    · exact Or.inl h
    · by_cases hx : l = x
      · subst hx
        rw [hsh.stage?_self] at h
        cases h
      · rw [hsh.stage?_of_ne hx] at h
        exact Or.inl h

/-- To prepare a lookup touches the pending cell of its own key alone. -/
theorem pendingCell?_prepare_of_ne {l : LookupId} {k : κ} (hk : c.key? l ≠ some k) :
    (c.prepare l).pendingCell? k = c.pendingCell? k := by
  rcases prepare_cases c l with he | ⟨key, -, hkey, -, -, -, he⟩
  · rw [he]
  · have hne : k ≠ key := by
      rintro rfl
      exact hk hkey
    rw [he, pendingCell?_attach, Function.update_of_ne hne]

/-- A poll that ends in a failure keeps the stored values in their order and the pending cells of
the other keys. -/
theorem Polled.kept_of_returned_error {l x : LookupId} {shown : List (CacheEvent ν ε)} {error : ε}
    (hp : Polled c l shown c') (hx : .returned x (.error error) ∈ shown) :
    c'.stored = c.stored ∧ ∀ k, c.key? l ≠ some k → c'.pendingCell? k = c.pendingCell? k := by
  cases hp with
  | idle => cases hx
  | wait => cases hx
  | begin => simp at hx
  | hit => simp at hx
  | receive => simp at hx
  | store ht => cases (ht.eq_of_returned_mem hx).2
  | orphan ht => cases (ht.eq_of_returned_mem hx).2
  | @forget _ key _ _ _ _ hkey _ _ _ hpend hst =>
    refine ⟨hst, fun k hk => ?_⟩
    have hne : k ≠ key := by
      rintro rfl
      exact hk hkey
    rw [hpend, Function.update_of_ne hne, pendingCell?_prepare_of_ne hk]
  | fail _ _ _ _ hpend hst => exact ⟨hst, fun k hk => by rw [hpend, pendingCell?_prepare_of_ne hk]⟩

end Step

namespace Run

variable {r : Run κ ν ε} {l x : LookupId} {k : κ} {d : CellId} {error : ε} {q s t : ℕ}

/-! ## Failures are the lookup's own -/

/-- The action of a moment decides what the initialiser of a lookup ends with. -/
def Decides (r : Run κ ν ε) (l : LookupId) (outcome : Except ε ν) (t : ℕ) : Prop :=
  (r.action t).Decides (r.cache t) l outcome

/-- What an initialiser ends with was decided for its lookup, and not decided anew since. -/
theorem exists_decides {outcome : Except ε ν} (h : (r.cache t).gate? l = some outcome) :
    ∃ s, s < t ∧ r.Decides l outcome s ∧ ∀ u other, s < u → u < t → ¬ r.Decides l other u := by
  induction t with
  | zero => cases h
  | succ t ih =>
    rcases decides_of_gate?_step h with hd | ⟨hold, hno⟩
    · exact ⟨t, by omega, hd, fun u other htu hut => by omega⟩
    · obtain ⟨s, hst, hd, hsince⟩ := ih hold
      refine ⟨s, by omega, hd, ?_⟩
      intro u other hsu hut
      rcases Nat.lt_or_eq_of_le (Nat.le_of_lt_succ hut) with hlt | rfl
      · exact hsince u other hsu hlt
      · exact hno other

/-- A failure that a lookup returns is what its own initialiser ends with. -/
theorem Returns.gate?_of_error (h : r.Returns l (.error error) t) :
    (r.cache t).gate? l = some (.error error) := by
  have hshown : .polled (.returned l (.error error)) ∈ ((r.cache t).step (.poll l)).2 := by
    rw [← h.action]
    exact h
  apply gate?_of_returned_poll (x := l)
  simpa [step] using hshown

/-- Whoever runs an initialiser has begun it before. -/
theorem exists_begins_of_running (h : (r.cache t).stage? l = some (.running d)) :
    ∃ s, s < t ∧ r.Begins l s := by
  induction t with
  | zero => cases h
  | succ t ih =>
    rcases (r.stepped t).running_before h with hold | hb
    · obtain ⟨s, hst, hb⟩ := ih hold
      exact ⟨s, by omega, hb⟩
    · exact ⟨t, by omega, hb⟩

/-- An initialiser begins no earlier than its lookup is first polled. -/
theorem FirstPolled.le_of_begins (hf : r.FirstPolled l q) (hb : r.Begins l s) : q ≤ s := by
  by_contra hlt
  obtain ⟨ha, d, ht⟩ := hb.turn
  -- the lookup was there when it was polled, so it is not fresh later
  obtain ⟨stage, hstage⟩ : ∃ stage, (r.cache s).stage? l = some stage := by
    cases ht with
    | taken hs => exact ⟨_, hs⟩
    | handed hs => exact ⟨_, hs⟩
  have hnot := (r.stepped s).not_fresh hstage (Or.inr ha)
  obtain ⟨later, hlater, hne⟩ := not_fresh_mono (show s + 1 ≤ q by omega) hnot
  rw [hf.2, Option.some_inj] at hlater
  exact hne hlater.symm

/-- A lookup that returns a failure has begun its own initialiser, in this poll or before. -/
theorem Returns.exists_begins (h : r.Returns l (.error error) t) : ∃ s, s ≤ t ∧ r.Begins l s := by
  obtain ⟨y, shown, -, hp, hshown, hx⟩ := polled_of_mem h
  obtain ⟨rfl, d, begun, ht, rfl, -⟩ := hp.of_returned_error hx
  have hnow : begun = [.began l] → r.Begins l t := by
    rintro rfl
    rw [Begins, hshown]
    simp
  cases ht with
  | taken => exact ⟨t, Nat.le_refl t, hnow rfl⟩
  | handed => exact ⟨t, Nat.le_refl t, hnow rfl⟩
  | kept hr =>
    obtain ⟨s, hst, hb⟩ := exists_begins_of_running hr
    exact ⟨s, Nat.le_of_lt hst, hb⟩

/-! ## What others keep -/

/-- The lookup returns the failure of its initialiser, or it is cancelled. -/
def Leaves (r : Run κ ν ε) (l : LookupId) (t : ℕ) : Prop :=
  (∃ error, r.Returns l (.error error) t) ∨ r.action t = .cancel l

/-- Only a poll or a cancellation makes a lookup leave. -/
theorem Leaves.action (h : r.Leaves l t) : r.action t = .poll l ∨ r.action t = .cancel l := by
  rcases h with ⟨error, h⟩ | h
  · exact Or.inl h.action
  · exact Or.inr h

/-- A lookup that leaves keeps the stored values in their order and the pending cells of the other
keys. -/
theorem Leaves.kept (h : r.Leaves l t) :
    (r.cache (t + 1)).stored = (r.cache t).stored ∧
      ∀ k, (r.cache t).key? l ≠ some k →
        (r.cache (t + 1)).pendingCell? k = (r.cache t).pendingCell? k := by
  rcases h with ⟨error, h⟩ | h
  · obtain ⟨y, shown, -, hp, -, hx⟩ := polled_of_mem h
    obtain rfl := (hp.of_returned_error hx).1
    exact hp.kept_of_returned_error hx
  · have hs := r.stepped t
    rw [h] at hs
    obtain ⟨hpend, hst⟩ := hs.cancelled_of_cancel.keys
    exact ⟨hst, fun k _ => by rw [hpend]⟩

/-- No cell is filled when a lookup leaves. -/
theorem Leaves.value_none (h : r.Leaves l t) (hv : ((r.cache t).cellAt d).value = none) :
    ((r.cache (t + 1)).cellAt d).value = none := by
  by_contra hne
  obtain ⟨v, hv'⟩ := Option.ne_none_iff_exists'.mp hne
  rcases (r.stepped t).value_before (r.sound t) hv' with hold | ⟨y, begun, ha, ht, hshown⟩
  · rw [hv] at hold
    cases hold
  · rcases h with ⟨error, h⟩ | h
    · -- the poll would return a value and a failure
      rw [Returns, hshown] at h
      have hmem : .returned l (.error error) ∈ begun ++ [.returned y (.ok v)] := by simpa using h
      cases (ht.eq_of_returned_mem hmem).2
    · rw [h] at ha
      cases ha

/-- A pending cell that another lookup is attached to stays the pending one when a lookup leaves. -/
theorem Leaves.mapped (h : r.Leaves l t) (hne : x ≠ l) (hx : (r.cache t).AttachedTo x d)
    (hm : (r.cache t).pendingCell? k = some d) : (r.cache (t + 1)).pendingCell? k = some d := by
  have hv := h.value_none ((r.sound t).mapped_value hm)
  refine (r.stepped t).mapped_after (r.sound t) hm (attachedTo_succ_of_ne h.action hne hx) hv ?_
  rcases h.action with ha | ha
  · rw [ha]
    exact id
  · rw [ha]
    exact id

/-- A lookup whose key has a pending cell joins it with its first poll. -/
theorem joins_of_mapped (hf : r.FirstPolled l t) (hk : (r.cache t).key? l = some k)
    (hm : (r.cache t).pendingCell? k = some d) : r.Joins l d t :=
  ⟨hf.1, (joins_iff hf.2 hk).mpr
    ⟨(r.sound t).mapped_stored hm, pendingCell?_prepare_of_some hm⟩⟩

/-- In every run, a failure stays with the lookup whose initialiser has failed:

* a lookup returns a failure only if its own initialiser has begun and was decided, last of all, to
  end with exactly this failure;
* it has begun since the lookup was first polled, however many lookups have failed before;
* a lookup that fails or is cancelled leaves the stored values as they are, in the same order, and
  every other key with the pending cell that it had;
* a pending cell that another lookup is attached to stays the pending one, and this lookup stays at
  it; as long as it does so, the cell has no value and the key is not dropped, every lookup of the
  key joins the cell with its first poll. -/
theorem failure_isolated (r : Run κ ν ε) :
    (∀ {l : LookupId} {error : ε} {t : ℕ}, r.Returns l (.error error) t →
      ∃ b s, b ≤ t ∧ r.Begins l b ∧ s < t ∧ r.Decides l (.error error) s ∧
        ∀ u other, s < u → u < t → ¬ r.Decides l other u) ∧
    (∀ {l : LookupId} {error : ε} {q t : ℕ}, r.FirstPolled l q → r.Returns l (.error error) t →
      ∃ b, q ≤ b ∧ b ≤ t ∧ r.Begins l b) ∧
    (∀ {l : LookupId} {t : ℕ}, r.Leaves l t →
      (r.cache (t + 1)).stored = (r.cache t).stored ∧
        ∀ k, (r.cache t).key? l ≠ some k →
          (r.cache (t + 1)).pendingCell? k = (r.cache t).pendingCell? k) ∧
    (∀ {l x : LookupId} {k : κ} {d : CellId} {t : ℕ}, r.Leaves l t → x ≠ l →
      (r.cache t).AttachedTo x d → (r.cache t).pendingCell? k = some d →
      (r.cache (t + 1)).AttachedTo x d ∧ (r.cache (t + 1)).pendingCell? k = some d ∧
        ∀ {u : ℕ}, t < u → (r.cache u).AttachedTo x d → ((r.cache u).cellAt d).value = none →
          (∀ w, t < w → w < u → ¬ r.Drops k w) →
          (r.cache u).pendingCell? k = some d ∧
            ∀ {y : LookupId}, r.FirstPolled y u → (r.cache u).key? y = some k →
              r.Joins y d u) := by
  refine ⟨?_, ?_, fun h => h.kept, ?_⟩
  · intro l error t h
    obtain ⟨b, hbt, hb⟩ := h.exists_begins
    obtain ⟨s, hst, hd, hsince⟩ := exists_decides h.gate?_of_error
    exact ⟨b, s, hbt, hb, hst, hd, hsince⟩
  · intro l error q t hf h
    obtain ⟨b, hbt, hb⟩ := h.exists_begins
    exact ⟨b, hf.le_of_begins hb, hbt, hb⟩
  · intro l x k d t h hne hx hm
    have hx' := attachedTo_succ_of_ne h.action hne hx
    have hm' := h.mapped hne hx hm
    refine ⟨hx', hm', ?_⟩
    intro u htu hxu hv hd
    have hmu := mapped_of_le htu hm' hx' hxu hv fun w htw hwu => hd w htw hwu
    exact ⟨hmu, fun hf hk => joins_of_mapped hf hk hmu⟩

/-- A run in which a value of key 9 is stored, key 8 is pending, and two lookups of key 7 share a
cell; the first of them fails, and a third one comes. -/
def retried : Run ℕ ℕ ℕ :=
  .ofList .never
    [.start 9 (some (.ok 1)), .poll 0, .start 8 none, .poll 1, .start 7 none, .start 7 none,
      .poll 2, .poll 3, .decideGate 2 (.error 404), .poll 2, .start 7 none, .poll 4]

/-- The first lookup of key 7 returns the failure of its own initialiser and leaves the stored
value, the other pending cell and the shared cell as they are, which the third lookup joins. -/
theorem retried_failure_isolated :
    retried.Returns 2 (.error 404) 9 ∧
      (∃ b s, b ≤ 9 ∧ retried.Begins 2 b ∧ s < 9 ∧ retried.Decides 2 (.error 404) s ∧
        ∀ u other, s < u → u < 9 → ¬ retried.Decides 2 other u) ∧
      retried.FirstPolled 2 6 ∧ (∃ b, 6 ≤ b ∧ b ≤ 9 ∧ retried.Begins 2 b) ∧
      (retried.cache 10).stored = (retried.cache 9).stored ∧
      (retried.cache 10).pendingCell? 8 = some 1 ∧
      (retried.cache 9).AttachedTo 3 2 ∧ (retried.cache 10).pendingCell? 7 = some 2 ∧
      retried.Joins 4 2 11 := by
  obtain ⟨hown, hagain, hkept, hshared⟩ := retried.failure_isolated
  have hret : retried.Returns 2 (.error 404) 9 := List.mem_singleton.mpr rfl
  have hleaves : retried.Leaves 2 9 := Or.inl ⟨404, hret⟩
  have hf : retried.FirstPolled 2 6 := ⟨rfl, rfl⟩
  have hx : (retried.cache 9).AttachedTo 3 2 := by decide
  obtain ⟨hstored, hpending⟩ := hkept hleaves
  obtain ⟨-, hm, hlater⟩ := hshared hleaves (by decide) hx (k := 7) rfl
  have hno : ∀ w, 9 < w → w < 11 → ¬ retried.Drops 7 w := by
    intro w hw hw'
    obtain rfl : w = 10 := by omega
    decide
  have hjoins := (hlater (by decide) (by decide) rfl hno).2 (y := 4) ⟨rfl, rfl⟩ rfl
  exact ⟨hret, hown hret, hf, hagain hf hret, hstored, hpending 8 (by decide), hx, hm, hjoins⟩

end Run

end Cache

end RemoteTable
