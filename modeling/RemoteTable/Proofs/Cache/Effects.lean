import RemoteTable.Proofs.Cache.Actions

/-!
# What one step leaves and what it changes

Facts about a single step of a sound cache, from which the facts about whole runs follow by
induction: what lookups, cells, pending cells and stored values keep, and by which step alone they
can change.

* `Stepped.attached_before`: a lookup comes to a cell only by its first poll;
* `Stepped.value_before`: a cell gets its value only from a lookup that has the turn;
* `Stepped.line_cases`: a line grows only at its end, by a lookup that joins;
* `Stepped.mapped_before`, `Stepped.mapped_after`: which cells become, and stay, pending ones;
* `Stepped.deserted_before`: a pending cell is left alone only by a cancellation.
-/

namespace RemoteTable

namespace Cache

variable {κ ν ε : Type} [DecidableEq κ]

variable {c c' : Cache κ ν ε} {action : Action κ ν ε} {seen : List (Observation κ ν ε)}

/-! ## Lookups -/

/-- Whose turn it is in a poll joins the cell now or did so before. -/
theorem Turn.joins_or_attached {l : LookupId} {d : CellId} {shown : List (CacheEvent ν ε)}
    (ht : Turn c l d shown) : c.Joins l d ∨ c.AttachedTo l d := by
  cases ht with
  | taken hs hk hn hm _ => exact Or.inl ((joins_iff hs hk).mpr ⟨hn, hm⟩)
  | handed hs _ => exact Or.inr (Or.inl hs)
  | kept hs => exact Or.inr (Or.inr hs)

/-- A lookup has the turn at the one cell that it joins or is attached to. -/
theorem Turn.eq_of_uses {l : LookupId} {d e : CellId} {shown : List (CacheEvent ν ε)}
    (ht : Turn c l e shown) (hu : c.Joins l d ∨ c.AttachedTo l d) : d = e := by
  rcases hu with hj | ha
  · cases ht with
    | taken hs hk _ hm _ =>
      have hd := ((joins_iff hs hk).mp hj).2
      rw [hm, Option.some_inj] at hd
      exact hd.symm
    | handed hs =>
      rw [hj.1] at hs
      cases hs
    | kept hs =>
      rw [hj.1] at hs
      cases hs
  · exact ht.eq_of_attached ha

/-- A poll shifts the stage of the lookup, or nothing at all. -/
theorem Polled.shift {l : LookupId} {shown : List (CacheEvent ν ε)} (hp : Polled c l shown c') :
    (c' = c ∧ c.stage? l ≠ some .fresh) ∨
      ∃ s d cell, s ≠ .fresh ∧ Shift (c.prepare l) c' l s d cell := by
  cases hp with
  | idle hs => exact Or.inl ⟨rfl, hs⟩
  | hit hs hk hv hsh =>
    refine Or.inr ⟨.ended, 0, c.cellAt 0, Stage.noConfusion, ?_⟩
    rw [prepare_of_stored hk hv]
    exact hsh
  | @receive _ d _ _ hs _ _ hsh =>
    refine Or.inr ⟨.ended, d, c.cellAt d, Stage.noConfusion, ?_⟩
    rw [prepare_of_not_fresh (by rw [hs]; exact fun h => by cases h)]
    exact hsh
  | wait _ _ _ _ _ hsh => exact Or.inr ⟨_, _, _, Stage.noConfusion, hsh⟩
  | begin _ hsh => exact Or.inr ⟨_, _, _, Stage.noConfusion, hsh⟩
  | store _ _ _ hsh => exact Or.inr ⟨_, _, _, Stage.noConfusion, hsh⟩
  | orphan _ _ _ hsh => exact Or.inr ⟨_, _, _, Stage.noConfusion, hsh⟩
  | forget _ _ _ _ hsh => exact Or.inr ⟨_, _, _, Stage.noConfusion, hsh⟩
  | fail _ _ _ hsh => exact Or.inr ⟨_, _, _, Stage.noConfusion, hsh⟩

/-- A poll leaves the stages of the others. -/
theorem Polled.stage?_of_ne {l x : LookupId} {shown : List (CacheEvent ν ε)}
    (hp : Polled c l shown c') (hx : x ≠ l) : c'.stage? x = c.stage? x := by
  rcases hp.shift with ⟨rfl, -⟩ | ⟨s, d, cell, -, hsh⟩
  · rfl
  · rw [hsh.stage?_of_ne hx, stage?_prepare]

/-- A cancellation ends a lookup that was started, and changes one cell at most. -/
theorem Cancelled.shift {l : LookupId} (hc : Cancelled c l c') :
    (c' = c ∧ c.stage? l = none) ∨ ∃ d cell, Shift c c' l .ended d cell := by
  cases hc with
  | unknown h => exact Or.inl ⟨rfl, h⟩
  | free _ hsh => exact Or.inr ⟨_, _, hsh⟩
  | left _ hsh => exact Or.inr ⟨_, _, hsh⟩

/-- A lookup that is neither polled nor cancelled stays in its stage. -/
theorem Stepped.stage?_eq (hs : Stepped c action seen c') {x : LookupId} {s : Stage}
    (hpoll : action ≠ .poll x) (hcancel : action ≠ .cancel x) (h : c.stage? x = some s) :
    c'.stage? x = some s := by
  cases hs with
  | quiet _ _ _ q => exact q.stage h
  | polled hp =>
    rw [hp.stage?_of_ne fun hx => hpoll (by rw [hx]), h]
  | cancelled hc =>
    rcases hc.shift with ⟨rfl, -⟩ | ⟨d, cell, hsh⟩
    · exact h
    · rw [hsh.stage?_of_ne fun hx => hcancel (by rw [hx]), h]

/-- A lookup that is cancelled has ended. -/
theorem Stepped.stage?_of_cancel {x : LookupId} (hs : Stepped c (.cancel x) seen c') {s : Stage}
    (h : c.stage? x = some s) : c'.stage? x = some .ended := by
  rcases hs.cancelled_of_cancel.shift with ⟨-, hnone⟩ | ⟨d, cell, hsh⟩
  · rw [hnone] at h
    cases h
  · exact hsh.stage?_self

/-- Lookups keep their keys. -/
theorem Stepped.key?_eq (hs : Stepped c action seen c') {l : LookupId} {k : κ}
    (h : c.key? l = some k) : c'.key? l = some k := by
  cases hs with
  | quiet _ _ _ q => exact q.key h
  | polled hp =>
    rcases hp.shift with ⟨rfl, -⟩ | ⟨s, d, cell, -, hsh⟩
    · exact h
    · rw [hsh.key, key?_prepare, h]
  | cancelled hc =>
    rcases hc.shift with ⟨rfl, -⟩ | ⟨d, cell, hsh⟩
    · exact h
    · rw [hsh.key, h]

/-- Cells are never taken away. -/
theorem Stepped.length_le (hs : Stepped c action seen c') : c.cells.length ≤ c'.cells.length := by
  cases hs with
  | quiet _ _ _ q => exact Nat.le_of_eq q.length.symm
  | @polled l _ _ hp =>
    rcases hp.shift with ⟨rfl, -⟩ | ⟨s, d, cell, -, hsh⟩
    · exact Nat.le_refl _
    · rw [hsh.length]
      exact length_cells_prepare_le c l
  | cancelled hc =>
    rcases hc.shift with ⟨rfl, -⟩ | ⟨d, cell, hsh⟩
    · exact Nat.le_refl _
    · exact Nat.le_of_eq hsh.length.symm

/-- A lookup that was polled once, or has ended, is not fresh any more. -/
theorem Stepped.not_fresh (hs : Stepped c action seen c') {l : LookupId} {s : Stage}
    (h : c.stage? l = some s) (hl : s ≠ .fresh ∨ action = .poll l) :
    ∃ s', c'.stage? l = some s' ∧ s' ≠ .fresh := by
  by_cases hpoll : action = .poll l
  · subst hpoll
    obtain ⟨shown, hp, -⟩ := hs.polled_of_poll
    rcases hp.shift with ⟨rfl, hf⟩ | ⟨s', d, cell, hne, hsh⟩
    · refine ⟨s, h, ?_⟩
      rintro rfl
      exact hf h
    · exact ⟨s', hsh.stage?_self, hne⟩
  · by_cases hcancel : action = .cancel l
    · subst hcancel
      exact ⟨.ended, hs.stage?_of_cancel h, Stage.noConfusion⟩
    · exact ⟨s, hs.stage?_eq hpoll hcancel h, hl.resolve_right hpoll⟩

/-- A lookup stays at its cell in a poll of it, or it ends. -/
theorem Polled.attached_after {x : LookupId} {shown : List (CacheEvent ν ε)}
    (hp : Polled c x shown c') {d : CellId} (ha : c.AttachedTo x d) :
    c'.AttachedTo x d ∨ c'.stage? x = some .ended := by
  have hfresh : c.stage? x ≠ some .fresh := fun h => not_attachedTo_of_fresh h d ha
  cases hp with
  | idle => exact Or.inl ha
  | hit h => exact absurd h hfresh
  | wait h => exact absurd h hfresh
  | begin ht hsh =>
    rw [ht.eq_of_attached ha]
    exact Or.inl (Or.inr hsh.stage?_self)
  | receive _ _ _ hsh => exact Or.inr hsh.stage?_self
  | store _ _ _ hsh => exact Or.inr hsh.stage?_self
  | orphan _ _ _ hsh => exact Or.inr hsh.stage?_self
  | forget _ _ _ _ hsh => exact Or.inr hsh.stage?_self
  | fail _ _ _ hsh => exact Or.inr hsh.stage?_self

/-- A lookup stays at its cell until it ends, by its own poll or by its cancellation. -/
theorem Stepped.attached_after (hs : Stepped c action seen c') {x : LookupId} {d : CellId}
    (ha : c.AttachedTo x d) :
    c'.AttachedTo x d ∨
      c'.stage? x = some .ended ∧ (action = .poll x ∨ action = .cancel x) := by
  by_cases hpoll : action = .poll x
  · subst hpoll
    obtain ⟨shown, hp, -⟩ := hs.polled_of_poll
    rcases hp.attached_after ha with ha' | hended
    · exact Or.inl ha'
    · exact Or.inr ⟨hended, Or.inl rfl⟩
  · by_cases hcancel : action = .cancel x
    · subst hcancel
      rcases ha with hw | hr
      · exact Or.inr ⟨hs.stage?_of_cancel hw, Or.inr rfl⟩
      · exact Or.inr ⟨hs.stage?_of_cancel hr, Or.inr rfl⟩
    · rcases ha with hw | hr
      · exact Or.inl (Or.inl (hs.stage?_eq hpoll hcancel hw))
      · exact Or.inl (Or.inr (hs.stage?_eq hpoll hcancel hr))

/-- A poll brings no lookup to a cell but one that joins it. -/
theorem Polled.attached_before {x : LookupId} {shown : List (CacheEvent ν ε)}
    (hp : Polled c x shown c') {d : CellId} (ha : c'.AttachedTo x d) :
    c.AttachedTo x d ∨ c.Joins x d := by
  have hended : c'.stage? x ≠ some .ended := fun h => not_attachedTo_of_ended h d ha
  cases hp with
  | idle => exact Or.inl ha
  | wait h hk hn hm _ hsh =>
    obtain rfl := ha.unique (Or.inl hsh.stage?_self)
    exact Or.inr ((joins_iff h hk).mpr ⟨hn, hm⟩)
  | begin ht hsh =>
    obtain rfl := ha.unique (Or.inr hsh.stage?_self)
    exact ht.joins_or_attached.symm
  | hit _ _ _ hsh => exact absurd hsh.stage?_self hended
  | receive _ _ _ hsh => exact absurd hsh.stage?_self hended
  | store _ _ _ hsh => exact absurd hsh.stage?_self hended
  | orphan _ _ _ hsh => exact absurd hsh.stage?_self hended
  | forget _ _ _ _ hsh => exact absurd hsh.stage?_self hended
  | fail _ _ _ hsh => exact absurd hsh.stage?_self hended

/-- A lookup comes to a cell only by its first poll. -/
theorem Stepped.attached_before (hs : Stepped c action seen c') {x : LookupId} {d : CellId}
    (ha : c'.AttachedTo x d) : c.AttachedTo x d ∨ action = .poll x ∧ c.Joins x d := by
  cases hs with
  | quiet _ _ _ q => exact Or.inl (q.attachedTo_iff.mp ha)
  | @polled l _ _ hp =>
    by_cases hx : x = l
    · subst hx
      rcases hp.attached_before ha with hold | hj
      · exact Or.inl hold
      · exact Or.inr ⟨rfl, hj⟩
    · rw [AttachedTo, hp.stage?_of_ne hx] at ha
      exact Or.inl ha
  | @cancelled l _ hc =>
    rcases hc.shift with ⟨rfl, -⟩ | ⟨e, cell, hsh⟩
    · exact Or.inl ha
    · by_cases hx : x = l
      · subst hx
        exact absurd ha (not_attachedTo_of_ended hsh.stage?_self d)
      · exact Or.inl ((hsh.attachedTo_of_ne hx).mp ha)

/-! ## Cells -/

/-- What a poll does to a cell: it keeps the value and lets nobody into the line, or it adds the
lookup at the end of the line, or it fills in the value of the lookup's own initialiser. -/
inductive CellPolled (c : Cache κ ν ε) (l : LookupId) (shown : List (CacheEvent ν ε))
    (c' : Cache κ ν ε) (d : CellId) : Prop where
  /-- Nobody comes into the line. -/
  | kept : (c'.cellAt d).value = (c.cellAt d).value →
    (c'.cellAt d).line.Sublist (c.cellAt d).line → CellPolled c l shown c' d
  /-- The lookup comes to the end of the line. -/
  | joined : c.Joins l d → (c'.cellAt d).value = (c.cellAt d).value →
    (c'.cellAt d).line = (c.cellAt d).line ++ [l] → CellPolled c l shown c' d
  /-- The lookup's initialiser succeeds. -/
  | filled {begun : List (CacheEvent ν ε)} {value : ν} : Turn c l d begun →
    shown = begun ++ [.returned l (.ok value)] → (c'.cellAt d).value = some value →
    (c'.cellAt d).line = [] → CellPolled c l shown c' d

/-- A poll may leave a cell as it is. -/
theorem CellPolled.of_eq {l : LookupId} {shown : List (CacheEvent ν ε)} {d : CellId}
    (h : c'.cellAt d = c.cellAt d) : CellPolled c l shown c' d :=
  .kept (by rw [h]) (by rw [h])

omit [DecidableEq κ] in
/-- A cell looks as before if it is not the changing one, or if that one's content stays. -/
theorem Shift.cellAt_eq {c₀ : Cache κ ν ε} {l : LookupId} {s : Stage} {e d : CellId}
    {cell : Cell ν} (hsh : Shift c₀ c' l s e cell) (hd : d = e → cell = c₀.cellAt e) :
    c'.cellAt d = c₀.cellAt d := by
  by_cases he : d = e
  · subst he
    rw [hsh.cellAt_self, hd rfl]
  · exact hsh.cellAt_of_ne he

/-- To fill a cell is to treat every cell in one of these ways. -/
theorem Turn.cellPolled_fill {l : LookupId} {begun : List (CacheEvent ν ε)} {e : CellId} {value : ν}
    (ht : Turn c l e begun) (hsh : Shift (c.prepare l) c' l .ended e ((c.cellAt e).fill value))
    (d : CellId) : CellPolled c l (begun ++ [.returned l (.ok value)]) c' d := by
  by_cases he : d = e
  · subst he
    exact .filled ht rfl (by rw [hsh.cellAt_self, Cell.value_fill])
      (by rw [hsh.cellAt_self, Cell.line_fill])
  · exact .of_eq (by rw [hsh.cellAt_of_ne he, cellAt_prepare])

/-- To pass the turn on is to treat every cell in one of these ways. -/
theorem cellPolled_passTurn {l : LookupId} {shown : List (CacheEvent ν ε)} {e : CellId}
    (hsh : Shift (c.prepare l) c' l .ended e (c.cellAt e).passTurn) (d : CellId) :
    CellPolled c l shown c' d := by
  by_cases he : d = e
  · subst he
    refine .kept (by rw [hsh.cellAt_self, Cell.value_passTurn]) ?_
    rw [hsh.cellAt_self, Cell.line_passTurn]
    exact List.sublist_append_right ..
  · exact .of_eq (by rw [hsh.cellAt_of_ne he, cellAt_prepare])

/-- Every poll treats every cell in one of these ways. -/
theorem Polled.cell {l : LookupId} {shown : List (CacheEvent ν ε)} (hp : Polled c l shown c')
    (h : c.Sound) (d : CellId) : CellPolled c l shown c' d := by
  cases hp with
  | idle => exact .of_eq rfl
  | hit _ _ _ hsh => exact .of_eq (hsh.cellAt_eq fun _ => rfl)
  | receive _ _ _ hsh => exact .of_eq (hsh.cellAt_eq fun _ => rfl)
  | @wait key e _ hs hk hn hm _ hsh =>
    by_cases he : d = e
    · subst he
      refine .joined ((joins_iff hs hk).mpr ⟨hn, hm⟩) ?_ ?_
      · rw [hsh.cellAt_self, Cell.value_join]
      · rw [hsh.cellAt_self, Cell.line_join]
    · exact .of_eq (by rw [hsh.cellAt_of_ne he, cellAt_prepare])
  | @begin e _ ht hsh =>
    by_cases he : d = e
    · subst he
      have hcell := hsh.cellAt_self
      cases ht with
      | taken hs hk hn hm ho =>
        -- the cell was empty: who takes a free turn is the whole line
        refine .joined ((joins_iff hs hk).mpr ⟨hn, hm⟩) ?_ ?_
        · rw [hcell, Cell.value_take]
        · rw [hcell, Cell.line_take, Cell.line, ho, (h.inOrder d).waiting_nil ho]
          rfl
      | handed _ ho => exact .of_eq (by rw [hcell, Cell.take_of_owner ho])
    · exact .of_eq (by rw [hsh.cellAt_of_ne he, cellAt_prepare])
  | store ht _ _ hsh => exact ht.cellPolled_fill hsh d
  | orphan ht _ _ hsh => exact ht.cellPolled_fill hsh d
  | forget _ _ _ _ hsh => exact cellPolled_passTurn hsh d
  | fail _ _ _ hsh => exact cellPolled_passTurn hsh d

/-- A cancellation keeps every value and lets nobody into a line. -/
theorem Cancelled.cell {l : LookupId} (hc : Cancelled c l c') (d : CellId) :
    (c'.cellAt d).value = (c.cellAt d).value ∧
      (c'.cellAt d).line.Sublist (c.cellAt d).line := by
  cases hc with
  | unknown => exact ⟨rfl, List.Sublist.refl _⟩
  | free _ hsh =>
    rw [hsh.cellAt_eq fun _ => rfl]
    exact ⟨rfl, List.Sublist.refl _⟩
  | @left e _ _ hsh =>
    by_cases he : d = e
    · subst he
      rw [hsh.cellAt_self, Cell.value_leave, Cell.line_leave]
      exact ⟨rfl, List.erase_sublist⟩
    · rw [hsh.cellAt_of_ne he]
      exact ⟨rfl, List.Sublist.refl _⟩

/-- A cell keeps its value. -/
theorem Stepped.value_after (hs : Stepped c action seen c') (h : c.Sound) {d : CellId} {v : ν}
    (hv : (c.cellAt d).value = some v) : (c'.cellAt d).value = some v := by
  cases hs with
  | quiet _ _ _ q => rw [q.cell, hv]
  | polled hp =>
    cases hp.cell h d with
    | kept he => rw [he, hv]
    | joined _ he => rw [he, hv]
    | filled ht =>
      rw [ht.value h] at hv
      cases hv
  | cancelled hc => rw [(hc.cell d).1, hv]

/-- A cell gets its value only from the initialiser of a lookup that has the turn. -/
theorem Stepped.value_before (hs : Stepped c action seen c') (h : c.Sound) {d : CellId} {v : ν}
    (hv : (c'.cellAt d).value = some v) :
    (c.cellAt d).value = some v ∨
      ∃ l begun, action = .poll l ∧ Turn c l d begun ∧
        seen = (begun ++ [CacheEvent.returned l (.ok v)]).map .polled := by
  cases hs with
  | quiet _ _ _ q => exact Or.inl (by rw [← q.cell, hv])
  | @polled l _ _ hp =>
    cases hp.cell h d with
    | kept he => exact Or.inl (by rw [← he, hv])
    | joined _ he => exact Or.inl (by rw [← he, hv])
    | filled ht hshown hval =>
      rw [hval, Option.some_inj] at hv
      subst hv
      exact Or.inr ⟨l, _, rfl, ht, by rw [hshown]⟩
  | cancelled hc => exact Or.inl (by rw [← (hc.cell d).1, hv])

/-- A line grows only at its end, by a lookup that joins. -/
theorem Stepped.line_cases (hs : Stepped c action seen c') (h : c.Sound) (d : CellId) :
    (c'.cellAt d).line.Sublist (c.cellAt d).line ∨
      ∃ l, action = .poll l ∧ c.Joins l d ∧
        (c'.cellAt d).line = (c.cellAt d).line ++ [l] := by
  cases hs with
  | quiet _ _ _ q =>
    rw [q.cell]
    exact Or.inl (List.Sublist.refl _)
  | @polled l _ _ hp =>
    cases hp.cell h d with
    | kept _ hl => exact Or.inl hl
    | joined hj _ hl => exact Or.inr ⟨l, rfl, hj, hl⟩
    | filled _ _ _ hl =>
      rw [hl]
      exact Or.inl (List.nil_sublist _)
  | cancelled hc => exact Or.inl (hc.cell d).2

/-! ## What a poll shows -/

/-- An initialiser begins only when its lookup gets the turn. -/
theorem Polled.of_began {l x : LookupId} {shown : List (CacheEvent ν ε)}
    (hp : Polled c l shown c') (hx : .began x ∈ shown) : x = l ∧ ∃ d, Turn c l d [.began l] := by
  have hturn : ∀ {d begun} {outcome : Except ε ν}, Turn c l d begun →
      .began x ∈ begun ++ [.returned l outcome] → x = l ∧ ∃ d, Turn c l d [.began l] := by
    intro d begun outcome ht hx
    cases ht with
    | taken hs hk hn hm ho => exact ⟨by simpa using hx, d, .taken hs hk hn hm ho⟩
    | handed hs ho => exact ⟨by simpa using hx, d, .handed hs ho⟩
    | kept => simp at hx
  cases hp with
  | idle => cases hx
  | hit => simp at hx
  | wait => cases hx
  | receive => simp at hx
  | begin ht => exact ⟨by simpa using hx, _, ht⟩
  | store ht => exact hturn ht hx
  | orphan ht => exact hturn ht hx
  | forget ht => exact hturn ht hx
  | fail ht => exact hturn ht hx

/-- A poll shows one return only, the last thing that it shows. -/
theorem Turn.eq_of_returned_mem {l x : LookupId} {d : CellId} {begun : List (CacheEvent ν ε)}
    {outcome outcome' : Except ε ν} (ht : Turn c l d begun)
    (hx : .returned x outcome ∈ begun ++ [.returned l outcome']) :
    x = l ∧ outcome = outcome' := by
  cases ht <;> simpa using hx

/-- A lookup that returns a value was answered by a stored value, or has waited for the value of its
cell, or has run its initialiser, whose value fills the cell. -/
theorem Polled.of_returned_ok {l x : LookupId} {shown : List (CacheEvent ν ε)} {v : ν}
    (hp : Polled c l shown c') (hx : .returned x (.ok v) ∈ shown) :
    x = l ∧
      ((shown = [.returned l (.ok v)] ∧ c.stage? l = some .fresh ∧
          ∃ key, c.key? l = some key ∧ c.stored.find? key = some v) ∨
        (shown = [.returned l (.ok v)] ∧
          ∃ d, c.stage? l = some (.waiting d) ∧ (c.cellAt d).value = some v) ∨
        ∃ d begun, Turn c l d begun ∧ shown = begun ++ [.returned l (.ok v)] ∧
          (c'.cellAt d).value = some v) := by
  cases hp with
  | idle => cases hx
  | wait => cases hx
  | begin => simp at hx
  | hit hs hk hv =>
    obtain ⟨rfl, rfl⟩ : x = l ∧ v = _ := by simpa using hx
    exact ⟨rfl, Or.inl ⟨rfl, hs, _, hk, hv⟩⟩
  | receive hs _ hv =>
    obtain ⟨rfl, rfl⟩ : x = l ∧ v = _ := by simpa using hx
    exact ⟨rfl, Or.inr (Or.inl ⟨rfl, _, hs, hv⟩)⟩
  | store ht _ _ hsh =>
    obtain ⟨rfl, he⟩ := ht.eq_of_returned_mem hx
    cases he
    exact ⟨rfl, Or.inr (Or.inr ⟨_, _, ht, rfl, by rw [hsh.cellAt_self, Cell.value_fill]⟩)⟩
  | orphan ht _ _ hsh =>
    obtain ⟨rfl, he⟩ := ht.eq_of_returned_mem hx
    cases he
    exact ⟨rfl, Or.inr (Or.inr ⟨_, _, ht, rfl, by rw [hsh.cellAt_self, Cell.value_fill]⟩)⟩
  | forget ht => cases (ht.eq_of_returned_mem hx).2
  | fail ht => cases (ht.eq_of_returned_mem hx).2

/-- A lookup that returns a failure has run its initialiser; it ends and passes the turn on. -/
theorem Polled.of_returned_error {l x : LookupId} {shown : List (CacheEvent ν ε)} {e : ε}
    (hp : Polled c l shown c') (hx : .returned x (.error e) ∈ shown) :
    x = l ∧ ∃ d begun, Turn c l d begun ∧ shown = begun ++ [.returned l (.error e)] ∧
      c'.stage? l = some .ended ∧ c'.cellAt d = (c.cellAt d).passTurn := by
  cases hp with
  | idle => cases hx
  | wait => cases hx
  | begin => simp at hx
  | hit => simp at hx
  | receive => simp at hx
  | store ht => cases (ht.eq_of_returned_mem hx).2
  | orphan ht => cases (ht.eq_of_returned_mem hx).2
  | forget ht _ _ _ hsh =>
    obtain ⟨rfl, he⟩ := ht.eq_of_returned_mem hx
    cases he
    exact ⟨rfl, _, _, ht, rfl, hsh.stage?_self, hsh.cellAt_self⟩
  | fail ht _ _ hsh =>
    obtain ⟨rfl, he⟩ := ht.eq_of_returned_mem hx
    cases he
    exact ⟨rfl, _, _, ht, rfl, hsh.stage?_self, hsh.cellAt_self⟩

/-! ## Pending cells and stored values -/

/-- What a poll does to pending cells and stored values, once the pending cell of the lookup's key
was made: nothing, or it stores the value in place of the pending cell, or it forgets that cell. -/
inductive KeysPolled (c : Cache κ ν ε) (l : LookupId) (shown : List (CacheEvent ν ε))
    (c' : Cache κ ν ε) : Prop where
  /-- Pending cells and stored values stay. -/
  | kept : c'.pendingCell? = (c.prepare l).pendingCell? → c'.stored.find? = c.stored.find? →
    KeysPolled c l shown c'
  /-- The value of the lookup's initialiser is stored. -/
  | stored {key : κ} {d : CellId} {begun : List (CacheEvent ν ε)} {value : ν} :
    Turn c l d begun → c.key? l = some key → (c.prepare l).pendingCell? key = some d →
    shown = begun ++ [.returned l (.ok value)] →
    c'.pendingCell? = Function.update (c.prepare l).pendingCell? key none →
    c'.stored = c.stored.put c.eviction key value → (c'.cellAt d).value = some value →
    KeysPolled c l shown c'
  /-- The pending cell is forgotten, and nobody is left in its line. -/
  | forgotten {key : κ} {d : CellId} {begun : List (CacheEvent ν ε)} :
    Turn c l d begun → c.key? l = some key → (c.prepare l).pendingCell? key = some d →
    c'.pendingCell? = Function.update (c.prepare l).pendingCell? key none →
    c'.stored = c.stored → (c'.cellAt d).line = [] → KeysPolled c l shown c'

/-- Every poll treats pending cells and stored values in one of these ways. -/
theorem Polled.keys {l : LookupId} {shown : List (CacheEvent ν ε)} (hp : Polled c l shown c') :
    KeysPolled c l shown c' := by
  cases hp with
  | idle hs => exact .kept (by rw [prepare_of_not_fresh hs]) rfl
  | hit _ hk hv _ hpend hst =>
    exact .kept (by rw [prepare_of_stored hk hv, hpend]) (by rw [hst, RecencyList.find?_touch])
  | wait _ _ _ _ _ _ hpend hst => exact .kept hpend (by rw [hst])
  | receive hs _ _ _ hpend hst =>
    refine .kept ?_ (by rw [hst])
    rw [prepare_of_not_fresh (by rw [hs]; exact fun h => by cases h), hpend]
  | begin _ _ hpend hst => exact .kept hpend (by rw [hst])
  | store ht hk hm hsh hpend hst =>
    exact .stored ht hk hm rfl hpend hst (by rw [hsh.cellAt_self, Cell.value_fill])
  | orphan _ _ _ _ hpend hst => exact .kept hpend (by rw [hst])
  | forget ht hk hm hw hsh hpend hst =>
    exact .forgotten ht hk hm hpend hst (by rw [hsh.cellAt_self, Cell.line_passTurn, hw])
  | fail _ _ _ _ hpend hst => exact .kept hpend (by rw [hst])

/-- A cancellation leaves the pending cells and the stored values. -/
theorem Cancelled.keys {l : LookupId} (hc : Cancelled c l c') :
    c'.pendingCell? = c.pendingCell? ∧ c'.stored = c.stored := by
  cases hc with
  | unknown => exact ⟨rfl, rfl⟩
  | free _ _ hpend hst => exact ⟨hpend, hst⟩
  | left _ _ hpend hst => exact ⟨hpend, hst⟩

/-- What is a pending cell behind a poll was one before, or the poll has made it. -/
theorem KeysPolled.pendingCell?_prepare {l : LookupId} {shown : List (CacheEvent ν ε)}
    (hk : KeysPolled c l shown c') {k : κ} {d : CellId} (hm : c'.pendingCell? k = some d) :
    (c.prepare l).pendingCell? k = some d := by
  cases hk with
  | kept hpend => rw [← hpend, hm]
  | stored _ _ _ _ hpend =>
    rw [hpend, Function.update_apply] at hm
    split at hm
    · cases hm
    · exact hm
  | forgotten _ _ _ hpend =>
    rw [hpend, Function.update_apply] at hm
    split at hm
    · cases hm
    · exact hm

/-- A cell becomes a pending one only when it is made, by a lookup that joins it. -/
theorem Stepped.mapped_before (hs : Stepped c action seen c') {k : κ} {d : CellId}
    (hm : c'.pendingCell? k = some d) :
    c.pendingCell? k = some d ∨
      d = c.cells.length ∧ ∃ l, action = .poll l ∧ c.Joins l d ∧ c.key? l = some k := by
  cases hs with
  | quiet _ _ _ q => exact Or.inl (q.pending hm)
  | @polled l _ _ hp =>
    have hm := hp.keys.pendingCell?_prepare hm
    rcases pendingCell?_of_prepare hm with hold | ⟨hd, hf, hk, hn⟩
    · exact Or.inl hold
    · exact Or.inr ⟨hd, l, rfl, (joins_iff hf hk).mpr ⟨hn, hm⟩, hk⟩
  | cancelled hc => exact Or.inl (by rw [← hc.keys.1, hm])

/-- A pending cell that a lookup is still attached to after a poll, and that still has no value, is
still the pending one. -/
theorem Polled.mapped_after {l : LookupId} {shown : List (CacheEvent ν ε)}
    (hp : Polled c l shown c') (h : c.Sound) {x : LookupId} {k : κ} {d : CellId}
    (hm : (c.prepare l).pendingCell? k = some d) (ha : c'.AttachedTo x d)
    (hv : (c'.cellAt d).value = none) : c'.pendingCell? k = some d := by
  cases hp.keys with
  | kept hpend => rw [hpend, hm]
  | @stored key e _ value ht _ hme _ hpend _ hval =>
    by_cases hk : k = key
    · -- the cell of this key was filled
      subst hk
      rw [hm, Option.some_inj] at hme
      subst hme
      rw [hv] at hval
      cases hval
    · rw [hpend, Function.update_of_ne hk, hm]
  | @forgotten key e _ ht _ hme hpend _ hline =>
    by_cases hk : k = key
    · -- nobody was left at the cell of this key
      subst hk
      rw [hm, Option.some_inj] at hme
      subst hme
      exact absurd ha (((hp.sound h).line_eq_nil_iff hv).mp hline x)
    · rw [hpend, Function.update_of_ne hk, hm]

/-- As long as a lookup is attached to it and it has no value, the pending cell of a key stays the
pending one until the key is dropped. -/
theorem Stepped.mapped_after (hs : Stepped c action seen c') (h : c.Sound) {x : LookupId} {k : κ}
    {d : CellId} (hm : c.pendingCell? k = some d) (ha : c'.AttachedTo x d)
    (hv : (c'.cellAt d).value = none) (hd : ¬ action.Drops k) : c'.pendingCell? k = some d := by
  cases hs with
  | quiet _ _ _ q => exact q.pending_kept hd hm
  | polled hp => exact hp.mapped_after h (pendingCell?_prepare_of_some hm) ha hv
  | cancelled hc => rw [hc.keys.1, hm]

/-- A value comes to be stored only from the initialiser of a lookup that has the turn at the
pending cell of the key. -/
theorem Stepped.stored_before (hs : Stepped c action seen c') {k : κ} {v : ν}
    (hv : c'.stored.find? k = some v) :
    c.stored.find? k = some v ∨
      ∃ l d begun, action = .poll l ∧ Turn c l d begun ∧ c.key? l = some k ∧
        (c.prepare l).pendingCell? k = some d ∧
        seen = (begun ++ [CacheEvent.returned l (.ok v)]).map .polled := by
  cases hs with
  | quiet _ _ _ q => exact Or.inl (q.stored hv)
  | @polled l _ _ hp =>
    cases hp.keys with
    | kept _ hst => exact Or.inl (by rw [← hst, hv])
    | @stored key d begun value ht hk hm hshown _ hst =>
      rw [hst] at hv
      by_cases he : k = key
      · subst he
        rw [RecencyList.find?_put_self, Option.some_inj] at hv
        subst hv
        exact Or.inr ⟨l, d, begun, rfl, ht, hk, hm, by rw [hshown]⟩
      · exact Or.inl (RecencyList.find?_of_find?_put he hv)
    | forgotten _ _ _ _ hst => exact Or.inl (by rw [← hst, hv])
  | cancelled hc => exact Or.inl (by rw [← hc.keys.2, hv])

/-- A key that is dropped has neither a pending cell nor a stored value. -/
theorem Stepped.dropped (hs : Stepped c action seen c') {k : κ} (hd : action.Drops k) :
    c'.pendingCell? k = none ∧ c'.stored.find? k = none := by
  cases hs with
  | quiet _ _ _ q => exact ⟨q.pending_dropped hd, q.stored_dropped hd⟩
  | polled => exact hd.elim
  | cancelled => exact hd.elim

/-- A lookup that is polled at the pending cell of a key does not leave it alone: it stays, or
others are in the line, or the cell is not the pending one any more. -/
theorem Polled.not_deserted {l : LookupId} {shown : List (CacheEvent ν ε)}
    (hp : Polled c l shown c') (h : c.Sound) {k : κ} {d : CellId}
    (hu : c.Joins l d ∨ c.AttachedTo l d) (hm : c'.pendingCell? k = some d) :
    ∃ x, c'.AttachedTo x d := by
  have h' : c'.Sound := hp.sound h
  have hm₀ := hp.keys.pendingCell?_prepare hm
  have hv' := h'.mapped_value hm
  cases hp with
  | idle hs => exact ⟨l, hu.resolve_left fun hj => hs hj.1⟩
  | hit hs hk hv =>
    have hj := hu.resolve_right (not_attachedTo_of_fresh hs d)
    rw [((joins_iff hs hk).mp hj).1] at hv
    cases hv
  | wait hs hk _ hme _ hsh =>
    have hj := hu.resolve_right (not_attachedTo_of_fresh hs d)
    rw [((joins_iff hs hk).mp hj).2, Option.some_inj] at hme
    subst hme
    exact ⟨l, Or.inl hsh.stage?_self⟩
  | receive hs _ hv hsh =>
    have hnot : ¬ c.Joins l d := by
      rintro ⟨hfresh, -⟩
      rw [hs] at hfresh
      cases hfresh
    obtain rfl := (hu.resolve_left hnot).unique (Or.inl hs)
    rw [hsh.cellAt_self, hv] at hv'
    cases hv'
  | begin ht hsh =>
    rw [ht.eq_of_uses hu]
    exact ⟨l, Or.inr hsh.stage?_self⟩
  | store ht _ _ hsh =>
    rw [ht.eq_of_uses hu, hsh.cellAt_self] at hv'
    cases hv'
  | orphan ht _ _ hsh =>
    rw [ht.eq_of_uses hu, hsh.cellAt_self] at hv'
    cases hv'
  | forget ht hk _ _ _ hpend =>
    obtain rfl := ht.eq_of_uses hu
    obtain rfl := ht.key_eq_of_mapped h hk hm₀
    rw [hpend, Function.update_self] at hm
    cases hm
  | fail ht hk hw hsh =>
    obtain rfl := ht.eq_of_uses hu
    obtain rfl := ht.key_eq_of_mapped h hk hm₀
    -- somebody waited, and is in the line now
    obtain ⟨x, hx⟩ := List.exists_mem_of_ne_nil _ (hw hm₀)
    refine ⟨x, h'.attached_of_mem_line ?_⟩
    rw [hsh.cellAt_self, Cell.line_passTurn]
    exact hx

/-- A pending cell that nobody is attached to was deserted before, or the last one has just been
cancelled. -/
theorem Stepped.deserted_before (hs : Stepped c action seen c') (h : c.Sound) {k : κ} {d : CellId}
    (hm : c'.pendingCell? k = some d) (hd : ∀ x, ¬ c'.AttachedTo x d) :
    (∃ l, action = .cancel l ∧ c.AttachedTo l d) ∨
      c.pendingCell? k = some d ∧ ∀ x, ¬ c.AttachedTo x d := by
  -- either the last of those who were attached has just left, or nobody was attached before
  by_cases hx : ∃ x, c.AttachedTo x d
  · obtain ⟨x, ha⟩ := hx
    rcases hs.attached_after ha with ha' | ⟨-, rfl | rfl⟩
    · exact absurd ha' (hd x)
    · obtain ⟨shown, hp, -⟩ := hs.polled_of_poll
      obtain ⟨y, hy⟩ := hp.not_deserted h (Or.inr ha) hm
      exact absurd hy (hd y)
    · exact Or.inl ⟨x, rfl, ha⟩
  · push Not at hx
    right
    refine ⟨?_, hx⟩
    -- the cell is not new, since who makes it does not leave it alone
    rcases hs.mapped_before hm with hold | ⟨-, l, rfl, hj, -⟩
    · exact hold
    · obtain ⟨shown, hp, -⟩ := hs.polled_of_poll
      obtain ⟨y, hy⟩ := hp.not_deserted h (Or.inl hj) hm
      exact absurd hy (hd y)

end Cache

end RemoteTable
