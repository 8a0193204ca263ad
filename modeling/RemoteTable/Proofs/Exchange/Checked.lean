import RemoteTable.Proofs.Exchange.Runs
import RemoteTable.Proofs.Response.Readings

/-!
# Checked indices

Programs whose indices are checked: an index outside of its list ends everything (`Checked.element`).
A checked program and a call are the same if they are the same in every run (`Checked.ofCall_bind`), so
the check of an index may rely on what the runs in front of it have found.
-/

namespace RemoteTable

/-! ## Checked accesses -/

/-- The end of a program at an index outside of its list. -/
structure OutOfBounds where
  /-- The index. -/
  index : ℕ
  /-- The length of the list. -/
  length : ℕ

/-- A computation that ends at an index outside of a list. -/
abbrev Checked := Except OutOfBounds

/-- A call that ends at an index outside of a list. -/
abbrev CheckedCall := ExceptT OutOfBounds Call

namespace Checked

variable {α β : Type}

/-- The element at an index of a list. -/
def element (l : List α) (index : ℕ) : Checked α :=
  match l[index]? with
  | some a => .ok a
  | none => .error ⟨index, l.length⟩

/-- A call without indices. -/
def ofCall (x : Call α) : CheckedCall α :=
  ExceptT.lift x

/-- A computation that sends nothing. -/
def toCall (x : Checked α) : CheckedCall α :=
  ExceptT.mk (pure x)

/-! ## Accesses within the bounds -/

/-- Inside of a list it does not matter what would be found outside. -/
theorem element_of_lt {l : List α} {index : ℕ} (h : index < l.length) (a : α) :
    element l index = .ok (l[index]?.getD a) := by
  rw [element, List.getElem?_eq_getElem h]
  rfl

/-- If every element passes, so do all of them together. -/
theorem mapM_eq_ok {f : α → Checked β} {g : α → β} {l : List α} (h : ∀ a ∈ l, f a = .ok (g a)) :
    l.mapM f = .ok (l.map g) :=
  mapM_eq_ok_iff.mpr (List.forall₂_map_right_iff.mpr (List.forall₂_same.mpr h))

/-- A checked program behind a call is unchecked if it is so behind every result of the call. -/
theorem ofCall_bind {x : Call α} {f : α → CheckedCall β} {g : α → Call β}
    (h : ∀ log a, x.Runs log (.ok a) → f a = ofCall (g a)) : ofCall x >>= f = ofCall (x >>= g) := by
  apply ExceptT.ext
  have hcongr : x >>= (fun a => (f a).run) = x >>= fun a => Except.ok <$> g a := by
    refine Call.bind_congr fun log a hruns => ?_
    rw [h log a hruns]
    rfl
  rw [ofCall, ExceptT.run_bind_lift, hcongr, ofCall, ExceptT.run_lift, map_bind]

end Checked

end RemoteTable
