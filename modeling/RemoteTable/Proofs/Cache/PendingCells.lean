import Mathlib.Data.Set.Card
import Mathlib.Tactic.IntervalCases
import RemoteTable.Proofs.Cache.Edits
import RemoteTable.Proofs.Cache.History

/-!
# Pending cells are in use

A key is never pending and stored at once, and a pending cell never has a value. A pending cell that
nobody is attached to was left by a cancellation, and nobody has come to it since
(`Run.exists_cancel_of_deserted`), because a lookup that fails while nobody else is attached takes
the cell away with it.

The list of pending cells has one entry for each key (`Reachable.nodup_pending`). So in a run without
cancellations its length counts the keys whose pending cell somebody is attached to.
-/

namespace RemoteTable

namespace Cache

variable {κ ν ε : Type} [DecidableEq κ]

/-! ## Every key has one entry -/

/-- The keys with a pending cell are those with an entry. -/
theorem exists_pendingCell?_iff {c : Cache κ ν ε} {k : κ} :
    (∃ d, c.pendingCell? k = some d) ↔ k ∈ c.pending.map Prod.fst := by
  constructor
  · rintro ⟨d, h⟩
    obtain ⟨entry, hfind, -⟩ := Option.map_eq_some_iff.mp h
    have hkey : entry.1 = k := by simpa using List.find?_some hfind
    exact List.mem_map.mpr ⟨entry, List.mem_of_find?_eq_some hfind, hkey⟩
  · intro h
    obtain ⟨entry, hmem, hkey⟩ := List.mem_map.mp h
    have hsome : (c.pending.find? fun entry => entry.1 = k).isSome :=
      List.find?_isSome.mpr ⟨entry, hmem, decide_eq_true hkey⟩
    obtain ⟨found, hfind⟩ := Option.isSome_iff_exists.mp hsome
    exact ⟨found.2, by rw [pendingCell?, hfind, Option.map_some]⟩

section Entries

variable (c : Cache κ ν ε) (l : LookupId) (key : κ)

theorem pending_removePending : (c.removePending key).pending.Sublist c.pending :=
  List.filter_sublist

/-- Edits only drop entries. -/
theorem Edited.pending {c c' : Cache κ ν ε} (h : Edited c c') : c'.pending.Sublist c.pending := by
  induction h with
  | refl => exact List.Sublist.refl _
  | removePending _ key ih => exact (pending_removePending _ key).trans ih
  | setStage _ _ _ ih | modifyCell _ _ _ ih | store _ _ _ ih => exact ih

/-- A poll makes at most the entry of the lookup's key. -/
theorem pending_poll : (c.poll l).1.pending.Sublist c.pending ∨
    ∃ key, (c.poll l).1.pending.Sublist (c.attach key).1.pending := by
  rcases c.poll_cases l with ⟨-, h⟩ | ⟨key, -, -, ⟨_, -, h⟩ | ⟨-, h⟩⟩
  · exact .inl h.pending
  · rw [h]
    exact .inl (List.Sublist.refl _)
  · exact .inr ⟨key, h.pending⟩

/-- Every step makes at most one entry, for a key that has none. -/
theorem pending_step (action : Action κ ν ε) : (c.step action).1.pending.Sublist c.pending ∨
    ∃ key, (c.step action).1.pending.Sublist (c.attach key).1.pending := by
  cases action with
  | poll l => exact pending_poll c l
  | invalidate key => exact Or.inl (pending_removePending c key)
  | clear => exact Or.inl (List.nil_sublist _)
  | start => exact Or.inl (List.Sublist.refl _)
  | decideGate => exact Or.inl (List.Sublist.refl _)
  | get => exact Or.inl (List.Sublist.refl _)
  | cancel l => exact Or.inl (edited_cancel c l).pending

/-- An entry is added for a key that has none. -/
theorem nodup_pending_attach {c : Cache κ ν ε} (h : (c.pending.map Prod.fst).Nodup) :
    ((c.attach key).1.pending.map Prod.fst).Nodup := by
  rcases attach_cases c key with ⟨-, he⟩ | ⟨hnone, -, he⟩
  · rw [he]
    exact h
  · have hkey : key ∉ c.pending.map Prod.fst := by
      rw [← exists_pendingCell?_iff, hnone]
      rintro ⟨d, hd⟩
      cases hd
    rw [he, List.map_append, List.nodup_append]
    refine ⟨h, List.nodup_singleton key, ?_⟩
    rintro k hk k' hk' rfl
    obtain rfl := List.mem_singleton.mp hk'
    exact hkey hk

end Entries

/-- In every cache that can be reached, every key has at most one entry. -/
theorem Reachable.nodup_pending {eviction : Eviction} {c : Cache κ ν ε}
    (h : Reachable eviction c) : (c.pending.map Prod.fst).Nodup := by
  induction h with
  | empty => exact List.nodup_nil
  | @step c action _ ih =>
    rcases pending_step c action with hs | ⟨key, hs⟩
    · exact ih.sublist (hs.map Prod.fst)
    · exact (nodup_pending_attach key ih).sublist (hs.map Prod.fst)

/-- The number of entries is the number of keys with a pending cell. -/
theorem Reachable.inFlight_eq {eviction : Eviction} {c : Cache κ ν ε}
    (h : Reachable eviction c) : c.inFlight = {k | ∃ d, c.pendingCell? k = some d}.ncard := by
  have hset : {k | ∃ d, c.pendingCell? k = some d} = ((c.pending.map Prod.fst).toFinset : Set κ) := by
    ext k
    rw [Set.mem_ofPred_eq, exists_pendingCell?_iff, Finset.mem_coe, List.mem_toFinset]
  rw [hset, Set.ncard_coe_finset, List.toFinset_card_of_nodup h.nodup_pending, List.length_map]
  rfl

omit [DecidableEq κ] in
/-- A lookup that is attached to a cell is unfinished. -/
theorem isUnfinished_of_attachedTo {c : Cache κ ν ε} {l : LookupId} {d : CellId}
    (h : c.AttachedTo l d) : c.isUnfinished l = true := by
  unfold isUnfinished
  rcases h with h | h
  · obtain ⟨lookup, hl, hs⟩ := Option.map_eq_some_iff.mp h
    rw [hl]
    simp [hs]
  · obtain ⟨lookup, hl, hs⟩ := Option.map_eq_some_iff.mp h
    rw [hl]
    simp [hs]

namespace Run

variable {r : Run κ ν ε} {k : κ} {d : CellId} {t : ℕ}

/-! ## Cells that were left behind -/

/-- A pending cell that nobody is attached to was left by a cancellation, and nobody was attached to
it since. -/
theorem exists_cancel_of_deserted (hm : (r.cache t).pendingCell? k = some d)
    (hd : ∀ x, ¬ (r.cache t).AttachedTo x d) :
    ∃ l s, s < t ∧ r.action s = .cancel l ∧ (r.cache s).AttachedTo l d ∧
      ∀ {u x}, s < u → u ≤ t → ¬ (r.cache u).AttachedTo x d := by
  induction t with
  | zero => cases hm
  | succ t ih =>
    rcases (r.stepped t).deserted_before (r.sound t) hm hd with ⟨l, ha, hl⟩ | ⟨hm', hd'⟩
    · refine ⟨l, t, by omega, ha, hl, ?_⟩
      intro u x htu hut
      obtain rfl : u = t + 1 := by omega
      exact hd x
    · obtain ⟨l, s, hst, ha, hl, hnone⟩ := ih hm' hd'
      refine ⟨l, s, by omega, ha, hl, ?_⟩
      intro u x hsu hut
      rcases Nat.lt_or_eq_of_le hut with hlt | rfl
      · exact hnone hsu (by omega)
      · exact hd x

/-- Without cancellations somebody is attached to every pending cell. -/
theorem exists_attached_of_no_cancel (h : ∀ s, s < t → ∀ l, r.action s ≠ .cancel l)
    (hm : (r.cache t).pendingCell? k = some d) : ∃ l, (r.cache t).AttachedTo l d := by
  by_contra hnone
  push Not at hnone
  obtain ⟨l, s, hst, ha, -⟩ := exists_cancel_of_deserted hm hnone
  exact h s hst l ha

/-- Without cancellations the pending cells are as many as the keys whose pending cell somebody is
attached to. -/
theorem inFlight_eq_of_no_cancel (h : ∀ s, s < t → ∀ l, r.action s ≠ .cancel l) :
    (r.cache t).inFlight =
      {k | ∃ d l, (r.cache t).pendingCell? k = some d ∧ (r.cache t).AttachedTo l d}.ncard := by
  rw [(r.reachable t).inFlight_eq]
  congr 1
  ext k
  constructor
  · rintro ⟨d, hm⟩
    obtain ⟨l, hl⟩ := exists_attached_of_no_cancel h hm
    exact ⟨d, l, hm, hl⟩
  · rintro ⟨d, l, hm, -⟩
    exact ⟨d, hm⟩

/-! ## Pending cells and their use -/

/-- In every run, pending cells are in use:

* no key has both a stored value and a pending cell;
* a pending cell has no value;
* a pending cell that nobody is attached to was left by a lookup that was cancelled, and nobody has
  come to it since;
* before the first cancellation there are as many pending cells as keys whose pending cell an
  unfinished lookup is attached to, and none if all lookups have finished. -/
theorem pending_in_use (r : Run κ ν ε) :
    (∀ {k : κ} {t : ℕ}, ¬ ((∃ v, (r.cache t).stored.find? k = some v) ∧
      ∃ d, (r.cache t).pendingCell? k = some d)) ∧
    (∀ {k : κ} {d : CellId} {t : ℕ}, (r.cache t).pendingCell? k = some d →
      ((r.cache t).cellAt d).value = none) ∧
    (∀ {k : κ} {d : CellId} {t : ℕ}, (r.cache t).pendingCell? k = some d →
      (∀ x, ¬ (r.cache t).AttachedTo x d) →
      ∃ l s, s < t ∧ r.action s = .cancel l ∧ (r.cache s).AttachedTo l d ∧
        ∀ {u x}, s < u → u ≤ t → ¬ (r.cache u).AttachedTo x d) ∧
    (∀ {t : ℕ}, (∀ s, s < t → ∀ l, r.action s ≠ .cancel l) →
      (r.cache t).inFlight =
        {k | ∃ d l, (r.cache t).pendingCell? k = some d ∧ (r.cache t).AttachedTo l d}.ncard) ∧
    (∀ {t : ℕ}, (∀ s, s < t → ∀ l, r.action s ≠ .cancel l) →
      (∀ l, (r.cache t).isUnfinished l = false) → (r.cache t).inFlight = 0) := by
  refine ⟨?_, fun hm => (r.sound _).mapped_value hm, exists_cancel_of_deserted,
    inFlight_eq_of_no_cancel, ?_⟩
  · rintro k t ⟨⟨v, hv⟩, d, hm⟩
    rw [(r.sound t).mapped_stored hm] at hv
    cases hv
  · intro t h hfinished
    have hempty : {k | ∃ d l, (r.cache t).pendingCell? k = some d ∧
        (r.cache t).AttachedTo l d} = ∅ := by
      refine Set.eq_empty_of_forall_notMem ?_
      rintro k ⟨d, l, -, hl⟩
      have hunfinished := isUnfinished_of_attachedTo hl
      rw [hfinished l] at hunfinished
      cases hunfinished
    rw [inFlight_eq_of_no_cancel h, hempty, Set.ncard_empty]

/-- A run in which one lookup fails and a later one, for another key, is cancelled. -/
def leftBehind : Run ℕ ℕ Unit :=
  .ofList .never
    [.start 7 none, .poll 0, .decideGate 0 (.error ()), .poll 0, .start 8 none, .poll 1, .cancel 1]

/-- The failure leaves no pending cell behind, the running lookup has one, and the cancellation
leaves it behind. -/
theorem leftBehind_pending_in_use :
    (leftBehind.cache 4).inFlight = 0 ∧
      (leftBehind.cache 6).inFlight = {k | ∃ d l, (leftBehind.cache 6).pendingCell? k = some d ∧
        (leftBehind.cache 6).AttachedTo l d}.ncard ∧
      (leftBehind.cache 6).inFlight = 1 ∧
      ((leftBehind.cache 6).cellAt 1).value = none ∧
      ∃ l s, s < 7 ∧ leftBehind.action s = .cancel l ∧ (leftBehind.cache s).AttachedTo l 1 ∧
        ∀ {u x}, s < u → u ≤ 7 → ¬ (leftBehind.cache u).AttachedTo x 1 := by
  obtain ⟨-, hvalue, hleft, hcount, hzero⟩ := leftBehind.pending_in_use
  have hno : ∀ s, s < 6 → ∀ l, leftBehind.action s ≠ .cancel l := by
    intro s hs l
    interval_cases s <;> exact nofun
  have hfinished : ∀ l, (leftBehind.cache 4).isUnfinished l = false := by
    intro l
    cases l <;> rfl
  have hnone : ∀ x, ¬ (leftBehind.cache 7).AttachedTo x 1 := by
    have hline : ((leftBehind.cache 7).cellAt 1).line = [] := rfl
    exact ((leftBehind.sound 7).line_eq_nil_iff rfl).mp hline
  exact ⟨hzero (fun s hs => hno s (by omega)) hfinished, hcount hno, rfl,
    hvalue (k := 8) rfl, hleft (k := 8) rfl hnone⟩

end Run

end Cache

end RemoteTable
