import RemoteTable.Proofs.Cache.Invariant

/-!
# What polls are made of

Behind the look at the stored values a poll is made of small edits (`Cache.Edited`): stages and cells
change, entries of pending cells go, and values are stored. A cancellation is made of them as well. So
what no edit changes is the same behind a poll, apart from what a first poll does before: it touches
the stored value that it finds, or else it makes the pending cell, and it is counted
(`Cache.poll_cases`).
-/

namespace RemoteTable

namespace Cache

variable {κ ν ε : Type} [DecidableEq κ]

/-! ## Edits -/

/-- The caches that small edits make of a cache. -/
inductive Edited (c : Cache κ ν ε) : Cache κ ν ε → Prop
  /-- Nothing is edited. -/
  | refl : Edited c c
  /-- A lookup is put into a stage. -/
  | setStage {c' : Cache κ ν ε} (h : Edited c c') (l : LookupId) (s : Stage) :
      Edited c (c'.setStage l s)
  /-- A cell is changed. -/
  | modifyCell {c' : Cache κ ν ε} (h : Edited c c') (d : CellId) (change : Cell ν → Cell ν) :
      Edited c (c'.modifyCell d change)
  /-- The pending cell of a key is forgotten. -/
  | removePending {c' : Cache κ ν ε} (h : Edited c c') (key : κ) : Edited c (c'.removePending key)
  /-- A value is stored. -/
  | store {c' : Cache κ ν ε} (h : Edited c c') (key : κ) (value : ν) :
      Edited c { c' with stored := c'.stored.put c'.eviction key value }

namespace Edited

variable {c c' c'' : Cache κ ν ε}

theorem trans (h : Edited c c') (h' : Edited c' c'') : Edited c c'' := by
  induction h' with
  | refl => exact h
  | setStage _ l s ih => exact ih.setStage l s
  | modifyCell _ d change ih => exact ih.modifyCell d change
  | removePending _ key ih => exact ih.removePending key
  | store _ key value ih => exact ih.store key value

/-- No edit changes the eviction rule. -/
theorem eviction (h : Edited c c') : c'.eviction = c.eviction := by
  induction h with
  | refl => rfl
  | setStage _ _ _ ih | modifyCell _ _ _ ih | removePending _ _ ih | store _ _ _ ih => exact ih

end Edited

/-! ## Parts of a poll -/

variable (c : Cache κ ν ε) (l : LookupId) (lookup : Lookup κ ν ε) (d : CellId) (key : κ)

/-- A return of a value edits, and so do the other parts of a poll behind the look at the stored
values. -/
theorem edited_returnValue (value : ν) : Edited c (c.returnValue l key d value).1 := by
  unfold returnValue
  dsimp only
  split
  · exact .store (.removePending (.setStage .refl l .ended) key) key value
  · exact .setStage .refl l .ended

theorem edited_returnError (error : ε) : Edited c (c.returnError l key d error).1 := by
  have hpassed : Edited c ((c.setStage l .ended).modifyCell d Cell.passTurn) :=
    .modifyCell (.setStage .refl l .ended) d Cell.passTurn
  unfold returnError
  dsimp only
  split
  · exact .removePending hpassed key
  · exact hpassed

theorem edited_continueRunning : Edited c (c.continueRunning l lookup d).1 := by
  unfold continueRunning
  split
  · exact .refl
  · exact (Edited.modifyCell .refl d _).trans (edited_returnValue _ l d lookup.key _)
  · exact edited_returnError c l d lookup.key _

theorem edited_beginRunning : Edited c (c.beginRunning l lookup d).1 :=
  (Edited.setStage .refl l (.running d)).trans (edited_continueRunning _ l lookup d)

theorem edited_arrive : Edited c (c.arrive l lookup d).1 := by
  unfold arrive
  split
  · exact .refl
  · split
    · exact edited_returnValue c l d lookup.key _
    · exact (Edited.modifyCell .refl d _).trans (edited_beginRunning _ l lookup d)
    · exact .setStage (.modifyCell .refl d _) l (.waiting d)

theorem edited_pollWaiting : Edited c (c.pollWaiting l lookup d).1 := by
  unfold pollWaiting
  split
  · exact .refl
  · split
    · exact edited_returnValue c l d lookup.key _
    · split
      · exact edited_beginRunning c l lookup d
      · exact .refl

/-- A cancellation ends the lookup and takes it out of its cell. -/
theorem edited_cancel : Edited c (c.cancel l) := by
  unfold cancel
  split
  · exact .refl
  · split
    · exact .setStage .refl l .ended
    · exact .setStage .refl l .ended
    · exact .modifyCell (.setStage .refl l .ended) _ (Cell.leave l)
    · exact .modifyCell (.setStage .refl l .ended) _ (Cell.leave l)

/-! ## Polls -/

/-- A poll that is not the first one only edits. A first poll touches the stored value that it finds
and counts a hit, or it attaches to the key's cell, counts a miss and edits. -/
theorem poll_cases :
    (c.stage? l ≠ some .fresh ∧ Edited c (c.poll l).1) ∨
      ∃ key, c.stage? l = some .fresh ∧ c.key? l = some key ∧
        ((∃ value, c.stored.find? key = some value ∧ (c.poll l).1 =
            { c.setStage l .ended with stored := c.stored.touch key, hits := c.hits + 1 }) ∨
          (c.stored.find? key = none ∧
            Edited { (c.attach key).1 with misses := (c.attach key).1.misses + 1 }
              (c.poll l).1)) := by
  unfold poll
  split
  case h_1 hl => exact .inl ⟨by simp [stage?, hl], .refl⟩
  case h_2 lookup hl =>
    have hstage := stage?_of_getElem? hl
    split
    case h_1 hfresh =>
      refine .inr ⟨lookup.key, hstage.trans (congrArg some hfresh), key?_of_getElem? hl, ?_⟩
      unfold firstPoll
      split
      case h_1 value hvalue => exact .inl ⟨value, hvalue, rfl⟩
      case h_2 hnone => exact .inr ⟨hnone, edited_arrive _ l lookup _⟩
    case h_2 d hwaiting => exact .inl ⟨by simp [hstage, hwaiting], edited_pollWaiting c l lookup d⟩
    case h_3 d hrunning =>
      exact .inl ⟨by simp [hstage, hrunning], edited_continueRunning c l lookup d⟩
    case h_4 hended => exact .inl ⟨by simp [hstage, hended], .refl⟩

end Cache

end RemoteTable
