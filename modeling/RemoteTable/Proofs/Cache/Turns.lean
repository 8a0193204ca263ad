import RemoteTable.Proofs.Cache.History

/-!
# Nobody waits in vain

As long as a cell has no value, and a lookup is attached to it, exactly one of these lookups has the
turn (`Cache.HasTurn`): it runs its initialiser, or it will begin to run it at its next poll, which
no step of another lookup can change (`Run.hasTurn_mono`).

The line of a cell is in the order in which its lookups have come (`Run.pairwise_line`), because it
grows only at its end. So the turn always belongs to the lookup that came first of those that are
still attached, and when its lookup fails or is cancelled (`Run.GivesUp`) it goes to the one that has
waited longest.
-/

namespace RemoteTable

namespace Cache

variable {κ ν ε : Type} [DecidableEq κ]

/-- A lookup that is attached to a cell has the turn there: it runs its initialiser, or it waits and
a poll of it would begin to run it. -/
def HasTurn (c : Cache κ ν ε) (l : LookupId) (d : CellId) : Prop :=
  c.stage? l = some (.running d) ∨ c.stage? l = some (.waiting d) ∧ .began l ∈ (c.poll l).2

/-- Whoever has the turn is attached to the cell. -/
theorem HasTurn.attachedTo {c : Cache κ ν ε} {l : LookupId} {d : CellId} (h : c.HasTurn l d) :
    c.AttachedTo l d := by
  rcases h with h | ⟨h, -⟩
  · exact Or.inr h
  · exact Or.inl h

/-- Who has the turn is written in the cell. -/
theorem Sound.hasTurn_iff {c : Cache κ ν ε} (h : c.Sound) {l : LookupId} {d : CellId} :
    c.HasTurn l d ↔ (c.cellAt d).owner = some l := by
  constructor
  · rintro (hr | ⟨hw, hb⟩)
    · exact h.owner_of_running hr
    · obtain ⟨-, e, ht⟩ := (h.polled l).of_began hb
      have he := ht.eq_of_attached (Or.inl hw)
      subst he
      cases ht with
      | taken hs =>
        rw [hw] at hs
        cases hs
      | handed _ ho => exact ho
  · intro ho
    have hv := h.value_of_owner ho
    rcases h.attached_of_owner ho with hw | hr
    · obtain ⟨lookup, hl, hwaiting⟩ := Option.map_eq_some_iff.mp hw
      have hcell := getElem?_cells (h.attached_lt (Or.inl hw))
      refine Or.inr ⟨hw, ?_⟩
      simp [poll, hl, hwaiting, pollWaiting, hcell, hv, ho, beginRunning]
    · exact Or.inl hr

/-- Only one lookup has the turn at a cell. -/
theorem Sound.hasTurn_unique {c : Cache κ ν ε} (h : c.Sound) {l l' : LookupId} {d : CellId}
    (hl : c.HasTurn l d) (hl' : c.HasTurn l' d) : l = l' := by
  rw [h.hasTurn_iff] at hl hl'
  rw [hl, Option.some_inj] at hl'
  exact hl'

/-- Somebody has the turn at a cell without a value that somebody is attached to. -/
theorem Sound.exists_hasTurn {c : Cache κ ν ε} (h : c.Sound) {l : LookupId} {d : CellId}
    (ha : c.AttachedTo l d) (hv : (c.cellAt d).value = none) : ∃ o, c.HasTurn o d := by
  have hne : (c.cellAt d).line ≠ [] := List.ne_nil_of_mem (h.mem_line_of_attached ha hv)
  refine ⟨(c.cellAt d).line.head hne, ?_⟩
  rw [h.hasTurn_iff, ← (h.inOrder d).head?_line, List.head?_eq_some_head hne]

/-- A lookup that gets the turn in its first poll begins. -/
theorem Turn.began_mem {c : Cache κ ν ε} {l : LookupId} {d : CellId}
    {begun : List (CacheEvent ν ε)} (ht : Turn c l d begun) (hs : c.stage? l = some .fresh) :
    .began l ∈ begun := by
  cases ht with
  | taken => exact List.mem_singleton.mpr rfl
  | handed => exact List.mem_singleton.mpr rfl
  | kept hr =>
    rw [hs] at hr
    cases hr

namespace Run

variable {r : Run κ ν ε} {l o x : LookupId} {d : CellId} {p q s t : ℕ}

/-! ## The order of a line -/

/-- The lookups in a line stand in the order in which they have joined the cell. -/
theorem pairwise_line (r : Run κ ν ε) (d : CellId) (t : ℕ) :
    ((r.cache t).cellAt d).line.Pairwise fun x y =>
      ∀ p q, r.Joins x d p → r.Joins y d q → p < q := by
  induction t with
  | zero => exact List.Pairwise.nil
  | succ t ih =>
    rcases (r.stepped t).line_cases (r.sound t) d with hsub | ⟨l, ha, hj, hl⟩
    · exact ih.sublist hsub
    · rw [hl, List.pairwise_append]
      refine ⟨ih, List.pairwise_singleton _ _, ?_⟩
      intro x hx y hy p q hp hq
      -- who is in the line has come before, and the newcomer comes now
      obtain rfl := List.mem_singleton.mp hy
      have hpt := (hp.eq_of_attached ((r.sound t).attached_of_mem_line hx)).1
      have hqt := (hq.unique ⟨ha, hj⟩).1
      rw [hqt]
      exact hpt

/-- The turn belongs to the lookup that came first of those that are attached. -/
theorem le_of_hasTurn (ho : (r.cache t).HasTurn o d) (hx : (r.cache t).AttachedTo x d)
    (hp : r.Joins o d p) (hq : r.Joins x d q) : p ≤ q := by
  have h := r.sound t
  have howner := h.hasTurn_iff.mp ho
  have hmem := h.mem_line_of_attached hx (h.value_of_owner howner)
  have hsorted := r.pairwise_line d t
  -- who has the turn stands at the head of the line
  have hline : ((r.cache t).cellAt d).line = o :: ((r.cache t).cellAt d).waiting := by
    rw [Cell.line, howner]
    rfl
  rw [hline] at hmem hsorted
  rcases List.mem_cons.mp hmem with rfl | hw
  · exact Nat.le_of_eq (hp.unique hq).1
  · exact Nat.le_of_lt ((List.pairwise_cons.mp hsorted).1 x hw p q hp hq)

/-! ## Keeping the turn -/

/-- No step of another lookup fills the cell of a lookup that has the turn. -/
theorem value_of_hasTurn (ho : (r.cache t).HasTurn o d) (hne : r.action t ≠ .poll o) :
    ((r.cache (t + 1)).cellAt d).value = none := by
  have howner := (r.sound t).hasTurn_iff.mp ho
  by_contra hv
  obtain ⟨v, hv⟩ := Option.ne_none_iff_exists'.mp hv
  rcases (r.stepped t).value_before (r.sound t) hv with hold | ⟨l, begun, ha, ht, -⟩
  · rw [(r.sound t).value_of_owner howner] at hold
    cases hold
  · rcases ht.owner (r.sound t) with hn | hl
    · rw [howner] at hn
      cases hn
    · rw [howner, Option.some_inj] at hl
      rw [ha, hl] at hne
      exact hne rfl

/-- A lookup keeps the turn in every step but its own poll and its cancellation. -/
theorem hasTurn_succ (ho : (r.cache t).HasTurn o d) (hpoll : r.action t ≠ .poll o)
    (hcancel : r.action t ≠ .cancel o) : (r.cache (t + 1)).HasTurn o d := by
  have ha := attachedTo_succ ho.attachedTo hpoll hcancel
  obtain ⟨n, hn⟩ := (r.sound (t + 1)).exists_hasTurn ha (value_of_hasTurn ho hpoll)
  obtain ⟨p, hpt, hp, -⟩ := exists_joins ho.attachedTo
  obtain ⟨q, -, hq, -⟩ := exists_joins hn.attachedTo
  -- whoever has the turn now has come no later than the lookup, and no earlier
  have hqp : q ≤ p := le_of_hasTurn hn ha hq hp
  have hpq : p ≤ q := by
    rcases (r.stepped t).attached_before hn.attachedTo with hold | ⟨haction, hj⟩
    · exact le_of_hasTurn ho hold hp hq
    · rw [(hq.unique ⟨haction, hj⟩).1]
      exact Nat.le_of_lt hpt
  obtain rfl := Nat.le_antisymm hpq hqp
  rw [hp.firstPolled.eq_lookup hq.firstPolled]
  exact hn

/-- A lookup keeps the turn until it is polled or cancelled. -/
theorem hasTurn_mono (hst : s ≤ t) (ho : (r.cache s).HasTurn o d)
    (h : ∀ u, s ≤ u → u < t → r.action u ≠ .poll o ∧ r.action u ≠ .cancel o) :
    (r.cache t).HasTurn o d := by
  induction t, hst using Nat.le_induction with
  | base => exact ho
  | succ t hst ih =>
    obtain ⟨hpoll, hcancel⟩ := h t hst (Nat.lt_succ_self t)
    exact hasTurn_succ (ih fun u hsu hut => h u hsu (by omega)) hpoll hcancel

/-! ## Handing the turn over -/

/-- The lookup that has the turn at the cell gives it up: it is cancelled, or its initialiser
fails, perhaps in the poll that has begun it. -/
def GivesUp (r : Run κ ν ε) (o : LookupId) (d : CellId) (t : ℕ) : Prop :=
  (r.cache t).HasTurn o d ∧ r.action t = .cancel o ∨
    ((r.cache t).Joins o d ∨ (r.cache t).AttachedTo o d) ∧ ∃ e, r.Returns o (.error e) t

/-- Only a lookup that is polled or cancelled gives its turn up. -/
theorem GivesUp.action (h : r.GivesUp o d t) : r.action t = .poll o ∨ r.action t = .cancel o := by
  rcases h with ⟨-, h⟩ | ⟨-, e, h⟩
  · exact Or.inr h
  · exact Or.inl h.action

/-- A lookup that has given its turn up has left the cell, which has no value. -/
theorem GivesUp.ended (h : r.GivesUp o d t) :
    (r.cache (t + 1)).stage? o = some .ended ∧ ((r.cache (t + 1)).cellAt d).value = none := by
  rcases h with ⟨ho, ha⟩ | ⟨hu, e, hret⟩
  · have hne : r.action t ≠ .poll o := by
      rw [ha]
      exact nofun
    have hs := r.stepped t
    rw [ha] at hs
    refine ⟨?_, value_of_hasTurn ho hne⟩
    rcases ho.attachedTo with hw | hr
    · exact hs.stage?_of_cancel hw
    · exact hs.stage?_of_cancel hr
  · obtain ⟨x, shown, -, hp, -, hx⟩ := polled_of_mem hret
    obtain ⟨rfl, f, begun, ht, -, hended, hcell⟩ := hp.of_returned_error hx
    rw [ht.eq_of_uses hu, hcell, Cell.value_passTurn]
    exact ⟨hended, ht.value (r.sound t)⟩

/-- All others stay at the cell when a lookup gives its turn up, and nobody comes. -/
theorem GivesUp.attachedTo_iff (h : r.GivesUp o d t) :
    (r.cache (t + 1)).AttachedTo x d ↔ x ≠ o ∧ (r.cache t).AttachedTo x d := by
  have hended := h.ended.1
  constructor
  · intro hx
    have hne : x ≠ o := by
      rintro rfl
      exact not_attachedTo_of_ended hended d hx
    refine ⟨hne, ?_⟩
    rcases (r.stepped t).attached_before hx with hold | ⟨ha, -⟩
    · exact hold
    · rcases h.action with h | h <;> rw [ha] at h
      · exact absurd (Action.poll.inj h) hne
      · cases h
  · rintro ⟨hne, hx⟩
    exact attachedTo_succ_of_ne h.action hne hx

/-- All others wait. -/
theorem GivesUp.waiting (h : r.GivesUp o d t) (hne : x ≠ o) (hx : (r.cache t).AttachedTo x d) :
    (r.cache t).stage? x = some (.waiting d) := by
  rcases hx with hw | hr
  · exact hw
  · -- who runs has the turn, and only one has it
    have hx := (r.sound t).owner_of_running hr
    rcases h with ⟨ho, -⟩ | ⟨hu, e, hret⟩
    · rw [(r.sound t).hasTurn_iff.mp ho, Option.some_inj] at hx
      exact absurd hx.symm hne
    · obtain ⟨y, shown, -, hp, -, hy⟩ := polled_of_mem hret
      obtain ⟨rfl, f, begun, ht, -⟩ := hp.of_returned_error hy
      obtain rfl := ht.eq_of_uses hu
      rcases ht.owner (r.sound t) with ho | ho <;> rw [hx] at ho
      · cases ho
      · exact absurd (Option.some_inj.mp ho) hne

/-- When a lookup gives its turn up and others are attached, the turn goes to the one of them that
has waited longest. -/
theorem GivesUp.exists_next (h : r.GivesUp o d t) (hne : x ≠ o) (hx : (r.cache t).AttachedTo x d) :
    ∃ n p, n ≠ o ∧ (r.cache t).stage? n = some (.waiting d) ∧ r.Joins n d p ∧
      (∀ y, (r.cache (t + 1)).HasTurn y d ↔ y = n) ∧
      ∀ {y q}, y ≠ o → (r.cache t).AttachedTo y d → r.Joins y d q → p ≤ q := by
  have hsound := r.sound (t + 1)
  obtain ⟨n, hn⟩ := hsound.exists_hasTurn (h.attachedTo_iff.mpr ⟨hne, hx⟩) h.ended.2
  obtain ⟨hno, hnd⟩ := h.attachedTo_iff.mp hn.attachedTo
  obtain ⟨p, -, hp, -⟩ := exists_joins hnd
  refine ⟨n, p, hno, h.waiting hno hnd, hp, ?_, ?_⟩
  · intro y
    constructor
    · exact fun hy => hsound.hasTurn_unique hy hn
    · rintro rfl
      exact hn
  · intro y q hy hyd hq
    exact le_of_hasTurn hn (h.attachedTo_iff.mpr ⟨hy, hyd⟩) hp hq

/-- A lookup that comes to a cell that nobody is attached to gets the turn at once. -/
theorem Joins.begins (hj : r.Joins l d t) (hnone : ∀ x, ¬ (r.cache t).AttachedTo x d) :
    r.Begins l t := by
  have h := r.sound t
  have ho : ((r.cache t).cellAt d).owner = none := by
    rw [← (h.inOrder d).head?_line, (h.line_eq_nil_iff hj.value).mpr hnone]
    rfl
  obtain ⟨hfresh, k, hk, hn, -⟩ := hj.2
  obtain ⟨shown, hp, hs⟩ := polled_of_action hj.1
  rw [Begins, hs]
  refine List.mem_map_of_mem ?_
  generalize r.cache (t + 1) = c' at hp
  cases hp with
  | idle h => exact absurd hfresh h
  | hit _ hk' hv =>
    rw [hk, Option.some_inj] at hk'
    rw [← hk', hn] at hv
    cases hv
  | @wait k' e _ _ hk' _ hm howner =>
    -- the cell of the line that the lookup would wait in is the one that nobody is attached to
    rw [hk, Option.some_inj] at hk'
    rw [← hk', hj.mapped hk, Option.some_inj] at hm
    rw [← hm] at howner
    exact absurd ho howner
  | receive hw =>
    rw [hfresh] at hw
    cases hw
  | begin => exact List.mem_singleton.mpr rfl
  | store ht => exact List.mem_append_left _ (ht.began_mem hfresh)
  | orphan ht => exact List.mem_append_left _ (ht.began_mem hfresh)
  | forget ht => exact List.mem_append_left _ (ht.began_mem hfresh)
  | fail ht => exact List.mem_append_left _ (ht.began_mem hfresh)

/-- A lookup that has the turn is at work when it is polled. -/
theorem busy_of_hasTurn (ho : (r.cache t).HasTurn o d) (h : r.action t = .poll o) :
    r.Busy o t := by
  rcases ho with hr | ⟨-, hb⟩
  · exact Or.inl ⟨d, hr⟩
  · right
    rw [Begins, shown, h]
    exact List.mem_map_of_mem hb

/-- In every run, nobody waits in vain:

* at a cell that a lookup is attached to there is a value, or exactly one lookup has the turn;
* a lookup keeps the turn until it is polled, and is at work then, or is cancelled;
* when the one that has the turn fails or is cancelled, exactly the others stay, and exactly the one
  of them that has waited longest has the turn then;
* a pending cell that was left behind by all its lookups gives the turn at once to the next lookup
  of its key. -/
theorem never_stranded (r : Run κ ν ε) :
    (∀ {l : LookupId} {d : CellId} {t : ℕ}, (r.cache t).AttachedTo l d →
      (∃ v, ((r.cache t).cellAt d).value = some v) ∨ ∃! o, (r.cache t).HasTurn o d) ∧
    (∀ {o : LookupId} {d : CellId} {s t : ℕ}, (r.cache s).HasTurn o d → s ≤ t →
      (∀ u, s ≤ u → u < t → r.action u ≠ .poll o ∧ r.action u ≠ .cancel o) →
      (r.cache t).HasTurn o d ∧ (r.action t = .poll o → r.Busy o t)) ∧
    (∀ {o : LookupId} {d : CellId} {t : ℕ}, r.GivesUp o d t →
      (∀ x, (r.cache (t + 1)).AttachedTo x d ↔ x ≠ o ∧ (r.cache t).AttachedTo x d) ∧
      ∀ x, x ≠ o → (r.cache t).AttachedTo x d →
        ∃ n p, n ≠ o ∧ (r.cache t).stage? n = some (.waiting d) ∧ r.Joins n d p ∧
          (∀ y, (r.cache (t + 1)).HasTurn y d ↔ y = n) ∧
          ∀ {y q}, y ≠ o → (r.cache t).AttachedTo y d → r.Joins y d q → p ≤ q) ∧
    (∀ {l : LookupId} {k : κ} {d : CellId} {t : ℕ}, (r.cache t).pendingCell? k = some d →
      (∀ x, ¬ (r.cache t).AttachedTo x d) → r.FirstPolled l t → (r.cache t).key? l = some k →
      r.Joins l d t ∧ r.Begins l t) := by
  refine ⟨?_, ?_, fun h => ⟨fun x => h.attachedTo_iff, fun x hne hx => h.exists_next hne hx⟩, ?_⟩
  · intro l d t ha
    cases hv : ((r.cache t).cellAt d).value with
    | some v => exact Or.inl ⟨v, rfl⟩
    | none =>
      obtain ⟨o, ho⟩ := (r.sound t).exists_hasTurn ha hv
      exact Or.inr ⟨o, ho, fun y hy => (r.sound t).hasTurn_unique hy ho⟩
  · intro o d s t ho hst h
    have ht := hasTurn_mono hst ho h
    exact ⟨ht, busy_of_hasTurn ht⟩
  · intro l k d t hm hnone hf hk
    have hj : r.Joins l d t :=
      ⟨hf.1, (joins_iff hf.2 hk).mpr
        ⟨(r.sound t).mapped_stored hm, pendingCell?_prepare_of_some hm⟩⟩
    exact ⟨hj, hj.begins hnone⟩

/-- A run in which three lookups of a key are cancelled one after the other, each when it has the
turn, and a fourth one comes to the cell that they have left behind. -/
def deserted : Run ℕ ℕ Unit :=
  .ofList .never
    [.start 7 none, .start 7 none, .start 7 none, .poll 0, .poll 2, .poll 1, .cancel 0, .cancel 2,
      .cancel 1, .start 7 none, .poll 3]

/-- The first lookup keeps the turn until it is cancelled; the turn goes to the lookup that was polled
next, and a lookup that comes when all have left begins at once. -/
theorem deserted_never_stranded :
    (∃! o, (deserted.cache 6).HasTurn o 0) ∧ (deserted.cache 6).HasTurn 0 0 ∧
      deserted.GivesUp 0 0 6 ∧ (deserted.cache 6).AttachedTo 1 0 ∧
      (∃ n p, n ≠ 0 ∧ (deserted.cache 6).stage? n = some (.waiting 0) ∧ deserted.Joins n 0 p ∧
        (∀ y, (deserted.cache 7).HasTurn y 0 ↔ y = n) ∧
        ∀ {y q}, y ≠ 0 → (deserted.cache 6).AttachedTo y 0 → deserted.Joins y 0 q → p ≤ q) ∧
      (deserted.cache 7).HasTurn 2 0 ∧ deserted.Begins 3 10 := by
  obtain ⟨hturn, hkeep, hnext, hleft⟩ := deserted.never_stranded
  have hothers : ∀ u, 4 ≤ u → u < 6 →
      deserted.action u ≠ .poll 0 ∧ deserted.action u ≠ .cancel 0 := by
    intro u hu hu'
    obtain rfl | rfl : u = 4 ∨ u = 5 := by omega
    · exact ⟨nofun, nofun⟩
    · exact ⟨nofun, nofun⟩
  have h0 : (deserted.cache 6).HasTurn 0 0 := (hkeep (Or.inl rfl) (by decide) hothers).1
  have hgives : deserted.GivesUp 0 0 6 := Or.inl ⟨h0, rfl⟩
  have h1 : (deserted.cache 6).AttachedTo 1 0 := by decide
  have h2 : (deserted.cache 7).HasTurn 2 0 := Or.inr ⟨rfl, List.mem_singleton.mpr rfl⟩
  have hnone : ∀ x, ¬ (deserted.cache 10).AttachedTo x 0 := by
    have hline : ((deserted.cache 10).cellAt 0).line = [] := rfl
    exact ((deserted.sound 10).line_eq_nil_iff rfl).mp hline
  have hunique : ∃! o, (deserted.cache 6).HasTurn o 0 := by
    rcases hturn h0.attachedTo with ⟨v, hv⟩ | h
    · cases hv
    · exact h
  exact ⟨hunique, h0, hgives, h1, (hnext hgives).2 1 (by decide) h1, h2,
    (hleft rfl hnone ⟨rfl, rfl⟩ rfl).2⟩

end Run

end Cache

end RemoteTable
