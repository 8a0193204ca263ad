import Mathlib.Data.List.Nodup
import RemoteTable.Members

/-!
# Members and their look-ups

Members in the order of their names are determined by their look-ups (`Members.eq_of_get?_eq`), and in
members that were written pair after pair a look-up finds the last pair of the name
(`Members.get?_ofList`). So only the order of pairs with one name matters (`Members.ofList_congr`), and
members can be written in any order (`Members.ofList_eq_of_perm`).
-/

namespace RemoteTable

/-- What is found from behind is the last element that is looked for. -/
theorem find?_reverse_eq_some_iff {α : Type} {p : α → Bool} {l : List α} {a : α} :
    l.reverse.find? p = some a ↔
      ∃ before after, l = before ++ a :: after ∧ p a = true ∧ ∀ later ∈ after, p later = false := by
  rw [List.find?_eq_some_iff_append]
  constructor
  · rintro ⟨ha, after, before, hl, hafter⟩
    refine ⟨before.reverse, after.reverse, ?_, ha, fun later hlater => ?_⟩
    · rw [← List.reverse_reverse l, hl]
      simp
    · simpa using hafter later (List.mem_reverse.mp hlater)
  · rintro ⟨before, after, rfl, ha, hafter⟩
    refine ⟨ha, after.reverse, before.reverse, by simp, fun later hlater => ?_⟩
    simpa using hafter later (List.mem_reverse.mp hlater)

namespace Members

variable {α : Type} {m m' : Members α} {pairs pairs' : List (String × α)}
variable {name : String} {value : α}

/-! ## Names -/

/-- The names are those under which something is found. -/
theorem mem_names_iff : name ∈ m.names ↔ ∃ value, m.get? name = some value := by
  simp only [names, List.mem_map, get?, Option.map_eq_some_iff]
  constructor
  · rintro ⟨pair, hpair, rfl⟩
    have hfound : (m.find? fun member => member.1 == pair.1).isSome :=
      List.find?_isSome.mpr ⟨pair, hpair, beq_self_eq_true pair.1⟩
    obtain ⟨first, hfirst⟩ := Option.isSome_iff_exists.mp hfound
    exact ⟨first.2, first, hfirst, rfl⟩
  · rintro ⟨value, pair, hpair, rfl⟩
    exact ⟨pair, List.mem_of_find?_eq_some hpair, by simpa using List.find?_some hpair⟩

/-- What is found under a name is one of the members. -/
theorem mem_of_get?_eq_some (h : m.get? name = some value) : (name, value) ∈ m := by
  obtain ⟨⟨other, _⟩, hpair, rfl⟩ := Option.map_eq_some_iff.mp h
  obtain rfl : other = name := by simpa using List.find?_some hpair
  exact List.mem_of_find?_eq_some hpair

/-- Where no name is repeated, the members are what the look-ups find. -/
theorem get?_eq_some_iff_mem (h : m.names.Nodup) : m.get? name = some value ↔ (name, value) ∈ m := by
  constructor
  · exact mem_of_get?_eq_some
  · intro hmem
    induction m with
    | nil => cases hmem
    | cons head rest ih =>
      obtain ⟨other, old⟩ := head
      obtain ⟨hother, hrest⟩ := List.nodup_cons.mp h
      rw [get?_cons]
      rcases List.mem_cons.mp hmem with heq | hmem
      · cases heq
        exact if_pos rfl
      · have hne : other ≠ name := by
          rintro rfl
          exact hother (List.mem_map.mpr ⟨_, hmem, rfl⟩)
        rw [if_neg hne]
        exact ih hrest hmem

/-! ## Members in order -/

/-- In increasing order no name stands twice. -/
theorem Sorted.nodup_names (h : m.Sorted) : m.names.Nodup :=
  List.pairwise_map.mpr (h.imp String.ne_of_lt)

/-- Members in order that consist of the same pairs are the same. -/
theorem Sorted.eq_of_perm (h : m.Sorted) (h' : m'.Sorted) (hperm : m.Perm m') : m = m' := by
  refine List.Perm.eq_of_pairwise (fun a b _ _ hab hba => ?_) h h' hperm
  exact absurd (String.lt_trans hab hba) (String.lt_irrefl a.1)

/-- Members in order are determined by their look-ups. -/
theorem eq_of_get?_eq (h : m.Sorted) (h' : m'.Sorted) (hget : ∀ name, m.get? name = m'.get? name) :
    m = m' := by
  have hnames := h.nodup_names
  have hnames' := h'.nodup_names
  refine h.eq_of_perm h' ((List.perm_ext_iff_of_nodup hnames.of_map hnames'.of_map).mpr ?_)
  rintro ⟨name, value⟩
  rw [← get?_eq_some_iff_mem hnames, hget, get?_eq_some_iff_mem hnames']

/-! ## Written pairs -/

/-- What is there after an insertion was inserted or there before. -/
theorem mem_of_mem_insertAll {pair : String × α} (h : pair ∈ m.insertAll pairs) :
    pair ∈ pairs ∨ pair ∈ m := by
  induction pairs generalizing m with
  | nil => exact .inr h
  | cons next pairs ih =>
    rcases ih h with hmem | hmem
    · exact .inl (List.mem_cons_of_mem next hmem)
    · rcases mem_insert hmem with rfl | hmem
      · exact .inl List.mem_cons_self
      · exact .inr hmem

theorem mem_of_mem_ofList {pair : String × α} (h : pair ∈ ofList pairs) : pair ∈ pairs :=
  (mem_of_mem_insertAll h).resolve_right List.not_mem_nil

/-- Of the pairs with a name the last one counts, and without one the value that was there. -/
theorem get?_insertAll (m : Members α) (pairs : List (String × α)) (name : String) :
    (m.insertAll pairs).get? name = (get? pairs.reverse name).or (m.get? name) := by
  induction pairs generalizing m with
  | nil => rfl
  | cons pair pairs ih =>
    obtain ⟨other, value⟩ := pair
    have hlast : get? [(other, value)] name = if other = name then some value else none :=
      get?_cons other value [] name
    have happend : get? (pairs.reverse ++ [(other, value)]) name =
        (get? pairs.reverse name).or (get? [(other, value)] name) := by
      simp only [get?, List.find?_append, Option.map_or]
    rw [List.reverse_cons, happend, hlast, Option.or_assoc]
    refine (ih (m.insert other value)).trans ?_
    rw [get?_insert]
    split <;> simp

/-- The last of the written values is found. -/
theorem get?_ofList (pairs : List (String × α)) (name : String) :
    (ofList pairs).get? name = get? pairs.reverse name := by
  rw [ofList, get?_insertAll]
  exact Option.or_none

/-- Whether a value is that of the last pair with a name. -/
def IsLast (pairs : List (String × α)) (name : String) (value : α) : Prop :=
  ∃ before after, pairs = before ++ (name, value) :: after ∧ ∀ later ∈ after, later.1 ≠ name

/-- What is found under a name is the value that was written last. -/
theorem get?_ofList_eq_some_iff : (ofList pairs).get? name = some value ↔ IsLast pairs name value := by
  rw [get?_ofList, get?, Option.map_eq_some_iff]
  simp only [find?_reverse_eq_some_iff, beq_iff_eq, beq_eq_false_iff_ne]
  constructor
  · rintro ⟨⟨other, value⟩, ⟨before, after, hpairs, rfl, hafter⟩, rfl⟩
    exact ⟨before, after, hpairs, hafter⟩
  · rintro ⟨before, after, hpairs, hafter⟩
    exact ⟨(name, value), ⟨before, after, hpairs, rfl, hafter⟩, rfl⟩

/-- Where no name is repeated, every pair is the last one of its name. -/
theorem isLast_iff_mem (h : (names pairs).Nodup) : IsLast pairs name value ↔ (name, value) ∈ pairs := by
  have hreverse : (names pairs.reverse).Nodup :=
    ((List.reverse_perm pairs).map Prod.fst).nodup_iff.mpr h
  rw [← get?_ofList_eq_some_iff, get?_ofList, get?_eq_some_iff_mem hreverse, List.mem_reverse]

/-- Lists with the same pairs of every name, each in the same order, describe the same members. -/
theorem ofList_congr (h : ∀ name, pairs.filter (·.1 = name) = pairs'.filter (·.1 = name)) :
    ofList pairs = ofList pairs' := by
  refine eq_of_get?_eq (sorted_ofList pairs) (sorted_ofList pairs') fun name => ?_
  have hlast : ∀ list : List (String × α),
      get? list.reverse name = ((list.filter (·.1 = name)).getLast?).map Prod.snd := by
    intro list
    rw [List.getLast?_filter]
    rfl
  rw [get?_ofList, get?_ofList, hlast, hlast, h]

/-- Members in order are described by their pairs in any order. -/
theorem ofList_eq_of_perm (h : m.Sorted) (hperm : pairs.Perm m) : ofList pairs = m := by
  refine eq_of_get?_eq (sorted_ofList pairs) h fun name => Option.ext fun value => ?_
  have hnames : (names pairs.reverse).Nodup :=
    (((List.reverse_perm pairs).trans hperm).map Prod.fst).nodup_iff.mpr h.nodup_names
  rw [get?_ofList, get?_eq_some_iff_mem hnames, get?_eq_some_iff_mem h.nodup_names,
    List.mem_reverse, hperm.mem_iff]

end Members

end RemoteTable
