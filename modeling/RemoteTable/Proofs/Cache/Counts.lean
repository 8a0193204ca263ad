import Mathlib.Data.Set.Card
import RemoteTable.Cache.Report
import RemoteTable.Proofs.Cache.Edits
import RemoteTable.Proofs.Cache.History

/-!
# Hits and misses

A lookup is counted when it is first polled: as a hit if its key has a stored value then
(`Run.Finds`), and otherwise as a miss (`Run.Misses`). Nothing else changes the two numbers
(`Run.counts_succ_of_not_firstPolled`). So the hits are the lookups that have found a value, the
misses are those that have not (`Run.counts_eq`), and together they are all the lookups that were
polled (`Run.hits_add_misses`).
-/

namespace RemoteTable

namespace Cache

variable {κ ν ε : Type} [DecidableEq κ]

/-! ## What changes the counts -/

/-- The number of hits and the number of misses. -/
def counts (c : Cache κ ν ε) : ℕ × ℕ :=
  (c.hits, c.misses)

variable {c c' : Cache κ ν ε} {l : LookupId} {k : κ} {v : ν}

/-- No edit is counted. -/
theorem Edited.counts (h : Edited c c') : c'.counts = c.counts := by
  induction h with
  | refl => rfl
  | setStage _ _ _ ih | modifyCell _ _ _ ih | removePending _ _ ih | store _ _ _ ih => exact ih

theorem counts_attach (c : Cache κ ν ε) (key : κ) : (c.attach key).1.counts = c.counts := by
  rcases attach_cases c key with ⟨-, h⟩ | ⟨-, -, h⟩
  · rw [h]
  · rw [h]
    rfl

/-- The first poll of a lookup that finds a stored value is a hit. -/
theorem counts_poll_of_stored (hs : c.stage? l = some .fresh) (hk : c.key? l = some k)
    (hv : c.stored.find? k = some v) : (c.poll l).1.counts = (c.hits + 1, c.misses) := by
  rcases c.poll_cases l with ⟨hne, -⟩ | ⟨key, -, hkey, ⟨_, -, h⟩ | ⟨hnone, -⟩⟩
  · exact absurd hs hne
  · rw [h]
    rfl
  · obtain rfl := Option.some.inj (hk.symm.trans hkey)
    rw [hnone] at hv
    cases hv

/-- The first poll of a lookup that finds no stored value is a miss. -/
theorem counts_poll_of_not_stored (hs : c.stage? l = some .fresh) (hk : c.key? l = some k)
    (hn : c.stored.find? k = none) : (c.poll l).1.counts = (c.hits, c.misses + 1) := by
  rcases c.poll_cases l with ⟨hne, -⟩ | ⟨key, -, hkey, ⟨_, hvalue, -⟩ | ⟨-, h⟩⟩
  · exact absurd hs hne
  · obtain rfl := Option.some.inj (hk.symm.trans hkey)
    rw [hn] at hvalue
    cases hvalue
  · obtain ⟨hhits, hmisses⟩ := Prod.mk.inj (counts_attach c key)
    exact h.counts.trans (Prod.ext hhits (congrArg (· + 1) hmisses))

/-- Later polls are not counted. -/
theorem counts_poll_of_not_fresh (hs : c.stage? l ≠ some .fresh) :
    (c.poll l).1.counts = c.counts := by
  rcases c.poll_cases l with ⟨-, h⟩ | ⟨_, hfresh, -⟩
  · exact h.counts
  · exact absurd hfresh hs

/-- Nothing but a poll is counted. -/
theorem counts_step_of_ne_poll {action : Action κ ν ε} (h : ∀ l, action ≠ .poll l) :
    (c.step action).1.counts = c.counts := by
  cases action with
  | poll l => exact absurd rfl (h l)
  | cancel l => exact (edited_cancel c l).counts
  | start => rfl
  | decideGate => rfl
  | get => rfl
  | invalidate => rfl
  | clear => rfl

namespace Run

variable {r : Run κ ν ε} {s t : ℕ}

/-! ## Hits and misses -/

/-- The lookup is polled for the first time, and its key has a stored value. -/
def Finds (r : Run κ ν ε) (l : LookupId) (t : ℕ) : Prop :=
  r.FirstPolled l t ∧ ∃ k v, (r.cache t).key? l = some k ∧ (r.cache t).stored.find? k = some v

/-- The lookup is polled for the first time, and its key has no stored value. -/
def Misses (r : Run κ ν ε) (l : LookupId) (t : ℕ) : Prop :=
  r.FirstPolled l t ∧ ∃ k, (r.cache t).key? l = some k ∧ (r.cache t).stored.find? k = none

/-- A lookup that is there has a key. -/
theorem FirstPolled.exists_key (h : r.FirstPolled l t) : ∃ k, (r.cache t).key? l = some k := by
  obtain ⟨lookup, hl, -⟩ := Option.map_eq_some_iff.mp h.2
  exact ⟨lookup.key, key?_of_getElem? hl⟩

/-- A first poll is a hit or a miss. -/
theorem firstPolled_iff : r.FirstPolled l t ↔ r.Finds l t ∨ r.Misses l t := by
  constructor
  · intro h
    obtain ⟨k, hk⟩ := h.exists_key
    cases hv : (r.cache t).stored.find? k with
    | some v => exact .inl ⟨h, k, v, hk, hv⟩
    | none => exact .inr ⟨h, k, hk, hv⟩
  · rintro (h | h)
    · exact h.1
    · exact h.1

/-- No lookup is both a hit and a miss. -/
theorem Finds.not_misses (h : r.Finds l s) : ¬ r.Misses l t := by
  rintro ⟨hf, k, hk, hn⟩
  obtain ⟨hf', j, v, hj, hv⟩ := h
  obtain rfl := hf.unique hf'
  rw [hj, Option.some_inj] at hk
  rw [hk, hn] at hv
  cases hv

/-- A hit is counted as one. -/
theorem Finds.counts_succ (h : r.Finds l t) :
    (r.cache (t + 1)).counts = ((r.cache t).hits + 1, (r.cache t).misses) := by
  obtain ⟨⟨ha, hs⟩, k, v, hk, hv⟩ := h
  rw [cache, ha]
  exact counts_poll_of_stored hs hk hv

theorem Misses.counts_succ (h : r.Misses l t) :
    (r.cache (t + 1)).counts = ((r.cache t).hits, (r.cache t).misses + 1) := by
  obtain ⟨⟨ha, hs⟩, k, hk, hn⟩ := h
  rw [cache, ha]
  exact counts_poll_of_not_stored hs hk hn

/-- Nothing but first polls is counted. -/
theorem counts_succ_of_not_firstPolled (h : ∀ l, ¬ r.FirstPolled l t) :
    (r.cache (t + 1)).counts = (r.cache t).counts := by
  rw [cache]
  by_cases hpoll : ∃ l, r.action t = .poll l
  · obtain ⟨l, ha⟩ := hpoll
    rw [ha]
    exact counts_poll_of_not_fresh fun hs => h l ⟨ha, hs⟩
  · exact counts_step_of_ne_poll fun l ha => hpoll ⟨l, ha⟩

/-! ## What happened so far -/

/-- The lookups of which something was true at a moment before. -/
def before (p : LookupId → ℕ → Prop) (t : ℕ) : Set LookupId :=
  {l | ∃ s, s < t ∧ p l s}

theorem before_zero (p : LookupId → ℕ → Prop) : before p 0 = ∅ :=
  Set.eq_empty_of_forall_notMem fun _ ⟨_, hs, _⟩ => Nat.not_lt_zero _ hs

/-- What happened up to now happened before or just now. -/
theorem before_succ (p : LookupId → ℕ → Prop) (t : ℕ) :
    before p (t + 1) = before p t ∪ {l | p l t} := by
  ext l
  constructor
  · rintro ⟨s, hs, h⟩
    rcases Nat.lt_succ_iff_lt_or_eq.mp hs with hlt | rfl
    · exact .inl ⟨s, hlt, h⟩
    · exact .inr h
  · rintro (⟨s, hs, h⟩ | h)
    · exact ⟨s, by omega, h⟩
    · exact ⟨t, by omega, h⟩

theorem before_succ_of_not {p : LookupId → ℕ → Prop} (h : ∀ l, ¬ p l t) :
    before p (t + 1) = before p t := by
  have hnew : {l | p l t} = ∅ := Set.eq_empty_of_forall_notMem h
  rw [before_succ, hnew, Set.union_empty]

/-- One lookup at most is polled for the first time at a moment, and none twice. -/
theorem before_succ_of_firstPolled {p : LookupId → ℕ → Prop}
    (hp : ∀ {l s}, p l s → r.FirstPolled l s) (h : p l t) :
    before p (t + 1) = insert l (before p t) ∧ l ∉ before p t := by
  constructor
  · rw [before_succ, Set.insert_eq, Set.union_comm]
    congr 1
    ext x
    constructor
    · exact fun hx => (hp hx).eq_lookup (hp h)
    · rintro rfl
      exact h
  · rintro ⟨s, hs, h'⟩
    have hst := (hp h').unique (hp h)
    omega

theorem finite_before {p : LookupId → ℕ → Prop} (hp : ∀ {l s}, p l s → r.FirstPolled l s)
    (t : ℕ) : (before p t).Finite := by
  induction t with
  | zero =>
    rw [before_zero]
    exact Set.finite_empty
  | succ t ih =>
    by_cases h : ∃ l, p l t
    · obtain ⟨l, hl⟩ := h
      rw [(before_succ_of_firstPolled hp hl).1]
      exact ih.insert l
    · rw [before_succ_of_not (not_exists.mp h)]
      exact ih

/-- A step in which it happens adds one lookup, since every lookup is polled for the first time
once. -/
theorem ncard_before_succ {p : LookupId → ℕ → Prop} (hp : ∀ {l s}, p l s → r.FirstPolled l s)
    (h : p l t) : (before p (t + 1)).ncard = (before p t).ncard + 1 := by
  obtain ⟨he, hl⟩ := before_succ_of_firstPolled hp h
  rw [he, Set.ncard_insert_of_notMem hl (finite_before hp t)]

/-! ## The counts -/

/-- The hits are the lookups that have found a value, and the misses are those that have not. -/
theorem counts_eq (r : Run κ ν ε) (t : ℕ) :
    (r.cache t).counts = ((before r.Finds t).ncard, (before r.Misses t).ncard) := by
  induction t with
  | zero =>
    rw [before_zero, before_zero, Set.ncard_empty]
    rfl
  | succ t ih =>
    rw [counts, Prod.mk.injEq] at ih
    by_cases h : ∃ l, r.FirstPolled l t
    · obtain ⟨l, hl⟩ := h
      -- nobody else is polled at this moment
      rcases firstPolled_iff.mp hl with hf | hm
      · have hno : ∀ x, ¬ r.Misses x t := by
          intro x hx
          rw [hx.1.eq_lookup hl] at hx
          exact hf.not_misses hx
        rw [hf.counts_succ, ncard_before_succ (fun h => h.1) hf, before_succ_of_not hno, ih.1,
          ih.2]
      · have hno : ∀ x, ¬ r.Finds x t := by
          intro x hx
          rw [hx.1.eq_lookup hl] at hx
          exact hx.not_misses hm
        rw [hm.counts_succ, ncard_before_succ (fun h => h.1) hm, before_succ_of_not hno, ih.1,
          ih.2]
    · rw [not_exists] at h
      rw [counts_succ_of_not_firstPolled h, before_succ_of_not fun l hl => h l hl.1,
        before_succ_of_not fun l hl => h l hl.1, counts, ih.1, ih.2]

/-- Every lookup that was polled is counted once. -/
theorem hits_add_misses (r : Run κ ν ε) (t : ℕ) :
    (r.cache t).hits + (r.cache t).misses = (before r.FirstPolled t).ncard := by
  have hcounts := r.counts_eq t
  rw [counts, Prod.mk.injEq] at hcounts
  have hunion : before r.FirstPolled t = before r.Finds t ∪ before r.Misses t := by
    ext l
    constructor
    · rintro ⟨s, hs, h⟩
      rcases firstPolled_iff.mp h with h | h
      · exact .inl ⟨s, hs, h⟩
      · exact .inr ⟨s, hs, h⟩
    · rintro (⟨s, hs, h⟩ | ⟨s, hs, h⟩)
      · exact ⟨s, hs, h.1⟩
      · exact ⟨s, hs, h.1⟩
  have hdisjoint : Disjoint (before r.Finds t) (before r.Misses t) := by
    rw [Set.disjoint_left]
    rintro l ⟨s, -, h⟩ ⟨u, -, h'⟩
    exact h.not_misses h'
  rw [hunion, Set.ncard_union_eq hdisjoint (finite_before (fun h => h.1) t)
    (finite_before (fun h => h.1) t), hcounts.1, hcounts.2]

end Run

end Cache

end RemoteTable
