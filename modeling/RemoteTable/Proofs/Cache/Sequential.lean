import RemoteTable.Cache.Schedule
import RemoteTable.Proofs.Cache.Views

/-!
# Lookups one at a time

A cache that is used by one caller has no pending cells between lookups. On such a cache a lookup is
answered by a stored value, or it is the one lookup that runs its initialiser (`Cache.awaiting`),
whose outcome ends it: a value is stored and a failure leaves no trace among the stored values. In
both cases there are no pending cells afterwards. So if the initialisers bring for a key only what can
be found for it, then nothing else is stored (`Cache.Recalls`).
-/

namespace RemoteTable

/-- A change at the place behind a list changes the element that was appended. -/
theorem modify_concat {α : Type} (xs : List α) (a : α) (f : α → α) :
    (xs ++ [a]).modify xs.length f = xs ++ [f a] := by
  induction xs with
  | nil => rfl
  | cons x xs ih => simp [ih]

/-! ## One lookup -/

namespace Cache

variable {κ ν ε : Type} [DecidableEq κ] {c : Cache κ ν ε}

/-- The cache in which one more lookup runs its initialiser, for a cell of its own. -/
def awaiting (c : Cache κ ν ε) (key : κ) : Cache κ ν ε :=
  { c with
    pending := [(key, c.cells.length)]
    cells := c.cells ++ [⟨none, some c.lookups.length, []⟩]
    lookups := c.lookups ++ [⟨key, .running c.cells.length, none⟩]
    misses := c.misses + 1 }

/-- A stored value answers a lookup at once. -/
theorem beginLookup_of_stored {key : κ} {value : ν} (h : c.stored.find? key = some value) :
    ∃ c', c.beginLookup key = (c', c.lookups.length, some (.ok value)) ∧
      c'.stored = c.stored.touch key ∧ c'.pending = c.pending := by
  refine ⟨_, Prod.ext rfl (Prod.ext rfl ?_), ?_, ?_⟩ <;>
    simp [beginLookup, start, poll, firstPoll, h, outcome?, setStage]

/-- A lookup of a key without a value runs its initialiser. -/
theorem beginLookup_of_not_stored {key : κ} (hidle : c.pending = [])
    (h : c.stored.find? key = none) :
    c.beginLookup key = (c.awaiting key, c.lookups.length, none) := by
  simp [beginLookup, start, poll, firstPoll, attach, arrive, beginRunning, continueRunning, h,
    pendingCell?, hidle, awaiting, setStage, modifyCell, outcome?, Cell.empty, modify_concat]

/-- A value ends the one running lookup: it is stored. -/
theorem endLookup_awaiting_ok (c : Cache κ ν ε) (key : κ) (value : ν) :
    ((c.awaiting key).endLookup c.lookups.length (.ok value)).stored =
        c.stored.put c.eviction key value ∧
      ((c.awaiting key).endLookup c.lookups.length (.ok value)).pending = [] := by
  simp [endLookup, decideGate, poll, continueRunning, returnValue, awaiting, setStage, modifyCell,
    modify_concat, pendingCell?, removePending]

/-- A failure ends the one running lookup, and nothing is stored. -/
theorem endLookup_awaiting_error (c : Cache κ ν ε) (key : κ) (error : ε) :
    ((c.awaiting key).endLookup c.lookups.length (.error error)).stored = c.stored ∧
      ((c.awaiting key).endLookup c.lookups.length (.error error)).pending = [] := by
  simp [endLookup, decideGate, poll, continueRunning, returnError, awaiting, setStage, modifyCell,
    modify_concat, pendingCell?, removePending, Cell.passTurn, Cell.isDeserted]

/-! ## Caches of what can be found -/

/-- A cache between lookups in which nothing is stored but what can be found for its key. -/
structure Recalls (c : Cache κ ν ε) (found : κ → ν → Prop) : Prop where
  /-- No lookup is under way. -/
  idle : c.pending = []
  /-- What is stored for a key can be found for it. -/
  stored : ∀ {key value}, c.stored.find? key = some value → found key value

namespace Recalls

variable {found : κ → ν → Prop}

/-- Nothing is stored at first. -/
theorem empty (eviction : Eviction) : (Cache.empty eviction : Cache κ ν ε).Recalls found :=
  ⟨rfl, fun h => by cases h⟩

theorem invalidate (h : c.Recalls found) (key : κ) : (c.invalidate key).Recalls found where
  idle := by simp [Cache.invalidate, removePending, h.idle]
  stored := by
    intro k value hv
    rw [Cache.invalidate, RecencyList.find?_erase, Function.update_apply] at hv
    split at hv
    · cases hv
    · exact h.stored hv

theorem clear (c : Cache κ ν ε) : c.clear.Recalls found :=
  ⟨rfl, fun h => by cases h⟩

/-- A lookup that a stored value answers changes nothing but the order of the stored values. -/
theorem beginLookup (h : c.Recalls found) {key : κ} {value : ν}
    (hstored : c.stored.find? key = some value) : (c.beginLookup key).1.Recalls found := by
  obtain ⟨c', hbegin, htouch, hpending⟩ := beginLookup_of_stored hstored
  rw [hbegin]
  refine ⟨hpending.trans h.idle, ?_⟩
  intro k other hk
  rw [htouch, RecencyList.find?_touch] at hk
  exact h.stored hk

/-- A lookup whose initialiser brings what can be found, or fails, leaves what can be found. -/
theorem endLookup (h : c.Recalls found) (key : κ) {outcome : Except ε ν}
    (hfound : ∀ value, outcome = .ok value → found key value) :
    ((c.awaiting key).endLookup c.lookups.length outcome).Recalls found := by
  cases outcome with
  | error error =>
    obtain ⟨hstored, hpending⟩ := endLookup_awaiting_error c key error
    exact ⟨hpending, fun hv => h.stored (hstored ▸ hv)⟩
  | ok value =>
    obtain ⟨hstored, hpending⟩ := endLookup_awaiting_ok c key value
    refine ⟨hpending, ?_⟩
    intro k other hk
    rw [hstored] at hk
    by_cases heq : k = key
    · subst heq
      rw [RecencyList.find?_put_self] at hk
      exact hfound other (congrArg Except.ok (Option.some.inj hk))
    · -- the put value may have pushed others out, and what is left was there before
      exact h.stored (RecencyList.find?_of_find?_put heq hk)

end Recalls

end Cache

end RemoteTable
