/-!
# Named members

The members of an object or a parameter map: pairs of a name and a value in strictly increasing
order of the names. Writing a name again replaces its value, so a list of pairs read from left to
right keeps the last value of every name. Main statements: `insert` keeps the order
(`sorted_insert`) and `get?` sees exactly the last write (`get?_insert`).
-/

namespace RemoteTable

/-- Pairs of a name and a value. -/
abbrev Members (α : Type) := List (String × α)

namespace Members

variable {α : Type}

/-! ## Operations -/

/-- The names, in order. -/
def names (m : Members α) : List String :=
  m.map Prod.fst

/-- The value of a name. -/
def get? (m : Members α) (name : String) : Option α :=
  (m.find? fun member => member.1 == name).map Prod.snd

/-- Writes a value under a name, at the place the order of names gives it. -/
def insert (name : String) (value : α) : Members α → Members α
  | [] => [(name, value)]
  | (other, old) :: rest =>
    if name < other then (name, value) :: (other, old) :: rest
    else if name = other then (name, value) :: rest
    else (other, old) :: insert name value rest

/-- Writes the pairs one after the other on top of given members. -/
def insertAll (m : Members α) (pairs : List (String × α)) : Members α :=
  pairs.foldl (fun members pair => members.insert pair.1 pair.2) m

/-- The members that a list of pairs describes: for a repeated name the last pair counts. -/
def ofList (pairs : List (String × α)) : Members α :=
  insertAll [] pairs

/-- The names are strictly increasing. -/
def Sorted (m : Members α) : Prop :=
  m.Pairwise fun a b => a.1 < b.1

instance (m : Members α) : Decidable m.Sorted :=
  inferInstanceAs (Decidable (List.Pairwise _ m))

/-! ## Order -/

theorem sorted_nil : Sorted ([] : Members α) :=
  List.Pairwise.nil

/-- A name of the members after a write is the written one or was there before. -/
theorem mem_insert {name : String} {value : α} {m : Members α} {pair : String × α}
    (h : pair ∈ m.insert name value) : pair = (name, value) ∨ pair ∈ m := by
  induction m with
  | nil => simpa [insert] using h
  | cons head rest ih =>
    simp only [insert] at h
    split at h
    · simpa using h
    · split at h
      · rcases List.mem_cons.mp h with h | h
        · exact Or.inl h
        · exact Or.inr (List.mem_cons_of_mem _ h)
      · rcases List.mem_cons.mp h with h | h
        · exact Or.inr (h ▸ List.mem_cons_self)
        · exact (ih h).imp id (List.mem_cons_of_mem _)

/-- Writing keeps the order of the names. -/
theorem sorted_insert {m : Members α} (h : m.Sorted) (name : String) (value : α) :
    (m.insert name value).Sorted := by
  induction m with
  | nil => simp [insert, Sorted]
  | cons head rest ih =>
    obtain ⟨first, tail⟩ := List.pairwise_cons.mp h
    simp only [insert]
    split
    · rename_i below
      refine List.pairwise_cons.mpr ⟨fun pair mem => ?_, h⟩
      rcases List.mem_cons.mp mem with rfl | mem
      · exact below
      · exact String.lt_trans below (first pair mem)
    · split
      · rename_i same
        exact List.pairwise_cons.mpr ⟨fun pair mem => by simpa [same] using first pair mem, tail⟩
      · rename_i notBelow notSame
        refine List.pairwise_cons.mpr ⟨fun pair mem => ?_, ih tail⟩
        rcases mem_insert mem with rfl | mem
        · rcases String.le_total name head.1 with le | le
          · exact absurd (String.le_antisymm le (String.not_lt.mp notBelow)) notSame
          · exact Decidable.byContradiction fun notAbove =>
              notSame (String.le_antisymm (String.not_lt.mp notAbove) le)
        · exact first pair mem

/-- Whatever is inserted, the names stay in order. -/
theorem sorted_insertAll {m : Members α} (h : m.Sorted) (pairs : List (String × α)) :
    (m.insertAll pairs).Sorted := by
  induction pairs generalizing m with
  | nil => exact h
  | cons pair pairs ih => exact ih (sorted_insert h pair.1 pair.2)

theorem sorted_ofList (pairs : List (String × α)) : (ofList pairs).Sorted :=
  sorted_insertAll sorted_nil pairs

/-! ## Look-up -/

theorem get?_cons (other : String) (value : α) (m : Members α) (name : String) :
    get? ((other, value) :: m) name = if other = name then some value else get? m name := by
  by_cases h : other = name <;> simp [get?, h]

/-- After a write the name has the written value and every other name has its value as before. -/
theorem get?_insert (m : Members α) (name : String) (value : α) (asked : String) :
    (m.insert name value).get? asked = if name = asked then some value else m.get? asked := by
  induction m with
  | nil => simp [insert, get?_cons]
  | cons head rest ih =>
    obtain ⟨other, old⟩ := head
    simp only [insert]
    split
    · simp [get?_cons]
    · split
      · rename_i same
        subst same
        by_cases h : name = asked <;> simp [get?_cons, h]
      · rename_i notSame
        rw [get?_cons, get?_cons, ih]
        by_cases h : other = asked
        · subst h
          simp [notSame]
        · simp [h]

end Members

end RemoteTable
