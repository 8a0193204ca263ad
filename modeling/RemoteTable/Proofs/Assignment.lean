import Mathlib.Data.Nat.Notation
import RemoteTable.Assignment

/-!
# The best of several assignments

The best of several candidates is the first that a stable sort by priority puts in front
(`Assignment.bestMatch_map`): none in front of it in the list is as good, and none behind it is
better (`exists_head?_sortByKey`).
-/

namespace RemoteTable

/-! ## Stable sorting by a key -/

section

variable {α β : Type} (key : α → ℕ)

/-- The elements sorted by a key, equal keys in their order. -/
def sortByKey (l : List α) : List α :=
  l.mergeSort fun a b => key a ≤ key b

/-- Sorting only moves elements. -/
theorem sortByKey_perm (l : List α) : (sortByKey key l).Perm l :=
  List.mergeSort_perm ..

/-- Only of no elements there is no first one. -/
theorem head?_sortByKey_eq_none_iff {l : List α} : (sortByKey key l).head? = none ↔ l = [] := by
  rw [List.head?_eq_none_iff]
  constructor
  · intro h
    have hperm := (sortByKey_perm key l).symm
    rw [h] at hperm
    exact hperm.eq_nil
  · rintro rfl
    exact List.mergeSort_nil

theorem map_sortByKey (f : β → α) (l : List β) :
    (sortByKey (fun b => key (f b)) l).map f = sortByKey key (l.map f) :=
  List.map_mergeSort fun _ _ _ _ => rfl

/-- Only the keys of the elements matter to the order. -/
theorem sortByKey_congr {key key' : α → ℕ} {l : List α} (h : ∀ a ∈ l, key a = key' a) :
    sortByKey key l = sortByKey key' l := by
  have hmap : (sortByKey key l).map id = sortByKey key' (l.map id) := by
    refine List.map_mergeSort fun a ha b hb => ?_
    rw [h a ha, h b hb]
    rfl
  simpa using hmap

/-- An element in front of a list comes first in the sorted list unless one of the list is better. -/
theorem head?_sortByKey_cons (a : α) (l : List α) :
    (sortByKey key (a :: l)).head? =
      match (sortByKey key l).head? with
      | some b => if key b < key a then some b else some a
      | none => some a := by
  have htrans : ∀ x y z : α, decide (key x ≤ key y) = true → decide (key y ≤ key z) = true →
      decide (key x ≤ key z) = true := by
    intro x y z hxy hyz
    simp only [decide_eq_true_eq] at hxy hyz ⊢
    omega
  have htotal : ∀ x y : α, (decide (key x ≤ key y) || decide (key y ≤ key x)) = true := by
    intro x y
    simp only [Bool.or_eq_true, decide_eq_true_eq]
    omega
  obtain ⟨front, back, hsorted, hrest, hfront⟩ := List.mergeSort_cons htrans htotal a l
  have hpairwise := List.pairwise_mergeSort htrans htotal (a :: l)
  unfold sortByKey
  rw [hsorted] at hpairwise ⊢
  rw [hrest]
  cases front with
  | nil =>
    -- nothing of the list is better, so what comes first in it does not matter
    cases back with
    | nil => rfl
    | cons b back =>
      have hle : key a ≤ key b := by
        have hhead := (List.pairwise_cons.mp hpairwise).1 b List.mem_cons_self
        simpa using hhead
      have hnot : ¬ key b < key a := by omega
      simp [hnot]
  | cons b front =>
    have hlt : key b < key a := by
      have hbetter := hfront b List.mem_cons_self
      simpa using hbetter
    simp [hlt]

/-- What comes first in the sorted list is the first of the best: all in front of it are worse, and
none behind it is better. -/
theorem exists_head?_sortByKey {l : List α} {a : α} (h : (sortByKey key l).head? = some a) :
    ∃ before after, l = before ++ a :: after ∧ (∀ b ∈ before, key a < key b) ∧
      ∀ b ∈ after, key a ≤ key b := by
  induction l generalizing a with
  | nil =>
    rw [(head?_sortByKey_eq_none_iff key).mpr rfl] at h
    cases h
  | cons c l ih =>
    rw [head?_sortByKey_cons] at h
    cases hrest : (sortByKey key l).head? with
    | none =>
      rw [hrest] at h
      obtain rfl : c = a := Option.some.inj h
      obtain rfl : l = [] := (head?_sortByKey_eq_none_iff key).mp hrest
      exact ⟨[], [], rfl, by simp, by simp⟩
    | some b =>
      obtain ⟨before, after, hl, hbefore, hafter⟩ := ih hrest
      rw [hrest] at h
      by_cases hlt : key b < key c
      · obtain rfl : b = a := by simpa [hlt] using h
        refine ⟨c :: before, after, by rw [hl, List.cons_append], ?_, hafter⟩
        intro x hx
        rcases List.mem_cons.mp hx with rfl | hx
        · exact hlt
        · exact hbefore x hx
      · obtain rfl : c = a := by simpa [hlt] using h
        refine ⟨[], l, rfl, by simp, ?_⟩
        intro x hx
        rw [hl] at hx
        have hle : key b ≤ key x := by
          rcases List.mem_append.mp hx with hx | hx
          · exact Nat.le_of_lt (hbefore x hx)
          · rcases List.mem_cons.mp hx with rfl | hx
            · exact Nat.le_refl _
            · exact hafter x hx
        omega

end

/-! ## The best match -/

namespace Assignment

variable (account : String)

/-- The priority of what a cell says about an account. -/
def cellPriority (assigned : Datum) : ℕ :=
  (ofDatum assigned account).priority

/-- The search for the best of several cells with their places finds what a stable sort puts in
front. -/
theorem bestFrom_eq (items : List (Datum × ℕ)) :
    bestFrom account items =
      (sortByKey (fun item => cellPriority account item.1) items).head?.map fun item =>
        (cellPriority account item.1, item.2) := by
  induction items with
  | nil => rw [(head?_sortByKey_eq_none_iff _).mpr rfl, bestFrom, Option.map_none]
  | cons item items ih =>
    obtain ⟨assigned, index⟩ := item
    rw [bestFrom, ih, head?_sortByKey_cons]
    cases (sortByKey (fun item => cellPriority account item.1) items).head? with
    | none => rfl
    | some best =>
      show (if cellPriority account best.1 < cellPriority account assigned then _ else _) = _
      by_cases h : cellPriority account best.1 < cellPriority account assigned
      · simp only [h, if_true]
        rfl
      · simp only [h, if_false]
        rfl

/-- The best match among the cells of some candidates is at the place of the candidate that a stable
sort by priority puts in front. -/
theorem bestMatch_map {α : Type} (cell : α → Datum) (l : List α) :
    ((bestMatch (l.map cell) account).bind fun index => l[index]?) =
      (sortByKey (fun a => cellPriority account (cell a)) l).head? := by
  -- both lists are images of the sorted candidates with their places
  let placed := sortByKey (fun p : α × ℕ => cellPriority account (cell p.1)) l.zipIdx
  have hcells : sortByKey (fun item => cellPriority account item.1) (l.map cell).zipIdx =
      placed.map fun p => (cell p.1, p.2) := by
    rw [List.zipIdx_map]
    exact (map_sortByKey _ _ _).symm
  have hplaces : sortByKey (fun a => cellPriority account (cell a)) l = placed.map Prod.fst := by
    rw [map_sortByKey (fun a => cellPriority account (cell a)), List.zipIdx_map_fst]
  have hmem : ∀ p ∈ placed, l[p.2]? = some p.1 := by
    intro p hp
    exact List.mem_zipIdx_iff_getElem?.mp ((sortByKey_perm _ _).mem_iff.mp hp)
  rw [bestMatch, bestFrom_eq, hcells, hplaces, List.head?_map, List.head?_map]
  cases hhead : placed.head? with
  | none => rfl
  | some p => exact hmem p (List.mem_of_head? hhead)

/-- The place of the best match is one of the places. -/
theorem lt_of_bestMatch {assignments : List Datum} {index : ℕ}
    (h : bestMatch assignments account = some index) : index < assignments.length := by
  have hfront := bestMatch_map account id assignments
  rw [List.map_id, h, Option.bind_some] at hfront
  refine Nat.lt_of_not_le fun hle => ?_
  rw [List.getElem?_eq_none hle] at hfront
  -- only the empty list has nothing in front, and it has no best match
  obtain rfl := (head?_sortByKey_eq_none_iff _).mp hfront.symm
  cases h

end Assignment

end RemoteTable
