import Mathlib.Algebra.Group.Nat.Defs
import RemoteTable.Proofs.Response.Readings

/-!
# Which replies are counts

The reading of a count is exact: `Response.CountsAs` lists what each kind of data gives, and a reply is
read so and in no other way (`Response.count_exact`). A numeral may have any number of zeros in front
and is compared with the bound by its value, so a long text can be a count and one more digit can make
it none, but no value wraps or is cut.
-/

namespace RemoteTable

/-- The end of the unsigned numbers as a power. -/
theorem unsignedEnd_eq : unsignedEnd = 2 ^ 64 := by
  decide

namespace Response

/-- What data give as a count. -/
inductive CountsAs : (data : Json) → (outcome : Except Error ℕ) → Prop
  /-- A whole number of 64 bits without a sign is a count. -/
  | whole {n : ℕ} (hn : n < 2 ^ 64) : CountsAs (.ofNat n) (.ok n)
  /-- A whole number below zero is none. -/
  | negative {k : WireInt} (hk : k.val < 0) :
    CountsAs (.number (.integer k)) (.error (.unexpectedResponse (.notACount (.integer k))))
  /-- A double is none, even if its value is a whole number. -/
  | double (x : Binary64) :
    CountsAs (.number (.double x)) (.error (.unexpectedResponse (.notACount (.double x))))
  /-- A text that spells a number of 64 bits is this count. -/
  | spelled {n : ℕ} {text : String} (h : SpelledNat n text.toList) (hn : n < 2 ^ 64) :
    CountsAs (.string text) (.ok n)
  /-- A text that spells a greater number is no count. -/
  | overflow {n : ℕ} {text : String} (h : SpelledNat n text.toList) (hn : 2 ^ 64 ≤ n) :
    CountsAs (.string text) (.error (.unexpectedResponse (.notACountText text)))
  /-- A text that spells no number is no count. -/
  | unspelled {text : String} (h : ∀ n, ¬ SpelledNat n text.toList) :
    CountsAs (.string text) (.error (.unexpectedResponse (.notACountText text)))
  /-- Data that are neither a number nor a text are no count. -/
  | other {data : Json} (hnumber : ∀ n, data ≠ .number n) (htext : ∀ text, data ≠ .string text) :
    CountsAs data (.error (.unexpectedResponse (.notCountable data)))

variable {r : Response}

/-! ## Texts and numbers that are no counts -/

/-- A text that does not spell a number of 64 bits is refused. -/
theorem count_of_text {text : String} (hdata : r.data = .string text)
    (h : ∀ n, SpelledNat n text.toList → 2 ^ 64 ≤ n) :
    r.count = .error (.unexpectedResponse (.notACountText text)) := by
  have hnone : unsigned64? (trimBlanks text.toList) = none := by
    cases hread : unsigned64? (trimBlanks text.toList) with
    | none => rfl
    | some n =>
      obtain ⟨hspelled, hlt⟩ := spelledNat_of_unsigned64? hread
      have hle := h n hspelled
      rw [unsignedEnd_eq] at hlt
      omega
  unfold count
  rw [hdata]
  simp only [hnone]

/-- A number that is not a whole one, or is negative, is refused. -/
theorem count_of_number {n : Number} (hdata : r.data = .number n) (h : n.toNat? = none) :
    r.count = .error (.unexpectedResponse (.notACount n)) := by
  unfold count
  rw [hdata]
  simp only [h]

/-! ## All data -/

/-- A reply is read as its data say. -/
theorem CountsAs.count_eq {data : Json} {outcome : Except Error ℕ} (h : CountsAs data outcome)
    (hdata : r.data = data) : r.count = outcome := by
  cases h with
  | whole hn => exact count_of_data (by rw [unsignedEnd_eq]; exact hn) (.inl hdata)
  | negative hk =>
    refine count_of_number hdata ?_
    show (if 0 ≤ _ then some _ else none) = none
    exact if_neg (by omega)
  | double => exact count_of_number hdata rfl
  | spelled hspelled hn =>
    exact count_of_data (by rw [unsignedEnd_eq]; exact hn) (.inr ⟨_, hdata, hspelled⟩)
  | overflow hspelled hn =>
    refine count_of_text hdata fun m hm => ?_
    rw [← hspelled.unique hm]
    exact hn
  | unspelled hnone => exact count_of_text hdata fun n hn => absurd hn (hnone n)
  | other hnumber htext =>
    unfold count
    rw [hdata]
    cases data with
    | number n => exact absurd rfl (hnumber n)
    | string text => exact absurd rfl (htext text)
    | null | boolean | array | object => rfl

/-- A number is a count, or negative, or a double. -/
theorem exists_countsAs_number (n : Number) : ∃ outcome, CountsAs (.number n) outcome := by
  cases n with
  | double x => exact ⟨_, .double x⟩
  | integer k =>
    by_cases hk : k.val < 0
    · exact ⟨_, .negative hk⟩
    · have hread : (Number.integer k).toNat? = some k.val.toNat := if_pos (by omega)
      obtain ⟨hnumber, hlt⟩ := toNat?_eq_some hread
      rw [hnumber]
      rw [unsignedEnd_eq] at hlt
      exact ⟨_, .whole hlt⟩

/-- A text spells a number of 64 bits, a greater one, or none. -/
theorem exists_countsAs_text (text : String) : ∃ outcome, CountsAs (.string text) outcome := by
  by_cases hspells : ∃ n, SpelledNat n text.toList
  · obtain ⟨n, hspelled⟩ := hspells
    rcases Nat.lt_or_ge n (2 ^ 64) with hlt | hge
    · exact ⟨_, .spelled hspelled hlt⟩
    · exact ⟨_, .overflow hspelled hge⟩
  · exact ⟨_, .unspelled (not_exists.mp hspells)⟩

/-- Nothing is left out of the list. -/
theorem exists_countsAs (data : Json) : ∃ outcome, CountsAs data outcome := by
  cases data with
  | number n => exact exists_countsAs_number n
  | string text => exact exists_countsAs_text text
  | null | boolean | array | object =>
    refine ⟨_, .other ?_ ?_⟩
    · intro n h
      cases h
    · intro text h
      cases h

/-- The data of a reply say exactly what is read as its count, and what its failure is if there is
none. -/
theorem count_exact (r : Response) (outcome : Except Error ℕ) :
    r.count = outcome ↔ CountsAs r.data outcome := by
  constructor
  · intro h
    obtain ⟨listed, hlisted⟩ := exists_countsAs r.data
    rw [← h, hlisted.count_eq rfl]
    exact hlisted
  · intro h
    exact h.count_eq rfl

/-- Zeros and blanks around a numeral do not count, and a fraction of zero does. -/
example : (Response.ok (.string " +007\n")).count = .ok 7 ∧
    (Response.ok (.string "7.0")).count = .error (.unexpectedResponse (.notACountText "7.0")) := by
  decide +kernel

end Response

end RemoteTable
