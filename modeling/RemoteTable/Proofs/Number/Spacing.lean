import Mathlib.Algebra.Order.Field.Rat
import Mathlib.Order.Monotone.Basic
import Mathlib.Tactic.Linarith
import Mathlib.Tactic.Positivity
import Mathlib.Tactic.Ring
import RemoteTable.Number.Shortest

/-!
# The spacing of doubles

The values of doubles increase with their magnitudes, by one spacing from each to the next
(`Binary64.numeratorAt_succ`). The numbers between the middles to both neighbours are those that round
to a double (`Binary64.Attracts`), where a middle belongs to the neighbour with the even significand. So
no number rounds to doubles of two magnitudes (`Binary64.Attracts.unique`).
-/

namespace RemoteTable

namespace Binary64

/-! ## Values in the order of magnitudes -/

theorem unit_pos : 0 < unit := by
  unfold unit
  generalize 1074 = n
  exact Nat.two_pow_pos n

/-- The whole number of spacings in the absolute value of a magnitude. -/
def significandAt (m : ℕ) : ℕ :=
  if m < binade then m else m % binade + binade

/-- The numerator over `unit` of the absolute value of a magnitude. -/
def numeratorAt (m : ℕ) : ℕ :=
  significandAt m * 2 ^ (m / binade - 1)

/-- The significand of a double is determined by its magnitude. -/
theorem significand_eq (x : Binary64) : x.significand = significandAt x.magnitude := rfl

theorem numerator_eq (x : Binary64) : x.numerator = numeratorAt x.magnitude := rfl

/-- Below the first binade a magnitude is its own significand. -/
theorem significandAt_of_lt {m : ℕ} (h : m < binade) : significandAt m = m :=
  if_pos h

theorem significandAt_of_le {m : ℕ} (h : binade ≤ m) : significandAt m = m % binade + binade :=
  if_neg (Nat.not_lt.mpr h)

/-- Inside a binade the next magnitude has one spacing more. -/
theorem significandAt_succ {m : ℕ} (h : (m + 1) % binade ≠ 0) :
    significandAt (m + 1) = significandAt m + 1 := by
  rcases Nat.lt_or_ge m binade with hlt | hge
  · have hnext : m + 1 < binade := by simp only [binade] at *; omega
    rw [significandAt_of_lt hlt, significandAt_of_lt hnext]
  · rw [significandAt_of_le hge, significandAt_of_le (Nat.le_succ_of_le hge)]
    simp only [binade] at *
    omega

/-- A binade begins with the smallest significand of full length. -/
theorem significandAt_first {m : ℕ} (h : (m + 1) % binade = 0) : significandAt (m + 1) = binade := by
  have hge : binade ≤ m + 1 := by simp only [binade] at *; omega
  rw [significandAt_of_le hge, h, Nat.zero_add]

/-- The next magnitude is one spacing further from zero. -/
theorem numeratorAt_succ (m : ℕ) : numeratorAt (m + 1) = numeratorAt m + 2 ^ (m / binade - 1) := by
  by_cases hlast : (m + 1) % binade = 0
  · -- the last double of a binade: the next one begins a binade of its own
    have hnext : (m + 1) / binade = m / binade + 1 := by simp only [binade] at *; omega
    rw [numeratorAt, numeratorAt, significandAt_first hlast, hnext, Nat.add_sub_cancel]
    rcases Nat.lt_or_ge m binade with hlt | hge
    · have hm : m + 1 = binade := by simp only [binade] at *; omega
      rw [significandAt_of_lt hlt, Nat.div_eq_of_lt hlt, ← hm]
      simp
    · -- its spacing is twice as large
      obtain ⟨doublings, hdoublings⟩ : ∃ doublings, m / binade = doublings + 1 :=
        Nat.exists_eq_succ_of_ne_zero fun hzero => by simp only [binade] at *; omega
      have hm : significandAt m + 1 = 2 * binade := by
        rw [significandAt_of_le hge]
        simp only [binade] at *
        omega
      rw [hdoublings, Nat.add_sub_cancel, Nat.pow_succ]
      calc
        binade * (2 ^ doublings * 2) = (significandAt m + 1) * 2 ^ doublings := by rw [hm]; ring
        _ = significandAt m * 2 ^ doublings + 2 ^ doublings := by ring
  · have hsame : (m + 1) / binade = m / binade := by simp only [binade] at *; omega
    rw [numeratorAt, numeratorAt, significandAt_succ hlast, hsame]
    ring

/-- Doubles of greater magnitudes are greater. -/
theorem numeratorAt_strictMono : StrictMono numeratorAt := by
  apply strictMono_nat_of_lt_succ
  intro m
  rw [numeratorAt_succ]
  have hspacing : 0 < 2 ^ (m / binade - 1) := by positivity
  omega

/-! ## Middles between neighbours -/

/-- The middle between a magnitude and the next one, as a numerator over twice `unit`. -/
def middle (m : ℕ) : ℕ :=
  numeratorAt m + numeratorAt (m + 1)

theorem middle_strictMono : StrictMono middle := by
  intro m n h
  have hvalue : numeratorAt m < numeratorAt n := numeratorAt_strictMono h
  have hnext : numeratorAt (m + 1) < numeratorAt (n + 1) := numeratorAt_strictMono (by omega)
  simp only [middle]
  omega

/-- The upper end of the numbers that round to a double is the middle to the next one. -/
theorem high_eq (x : Binary64) : x.quarters.2.2 * 2 ^ x.doublings = 2 * middle x.magnitude := by
  have hvalue : numeratorAt x.magnitude = x.significand * 2 ^ x.doublings := rfl
  have hnext : numeratorAt (x.magnitude + 1) = x.significand * 2 ^ x.doublings + 2 ^ x.doublings :=
    numeratorAt_succ x.magnitude
  rw [middle, hnext, hvalue]
  show (4 * x.significand + 2) * 2 ^ x.doublings = _
  ring

/-- Below a power of two the spacing is half of that above it. -/
theorem spacing_below {x : Binary64} {m : ℕ} (h : x.magnitude = m + 1) :
    (if x.significand = binade ∧ 0 < x.doublings then 1 else 2) * 2 ^ x.doublings =
      2 * 2 ^ (m / binade - 1) := by
  have hdoublings : x.doublings = (m + 1) / binade - 1 := by rw [← h]; rfl
  have hsignificand : x.significand = significandAt (m + 1) := by rw [← h]; rfl
  rw [hdoublings, hsignificand]
  split
  · rename_i hpower
    obtain ⟨hfirst, hlarge⟩ := hpower
    have hge : binade ≤ m + 1 := by
      by_contra hlt
      rw [Nat.div_eq_of_lt (Nat.lt_of_not_le hlt)] at hlarge
      omega
    rw [significandAt_of_le hge] at hfirst
    have hbelow : (m + 1) / binade - 1 = m / binade - 1 + 1 := by
      simp only [binade] at *
      omega
    rw [hbelow, Nat.pow_succ]
    omega
  · rename_i hinside
    have hsame : (m + 1) / binade - 1 = m / binade - 1 := by
      by_cases hfirst : (m + 1) % binade = 0
      · -- the spacings of the first two binades are the same
        have hsmall : ¬ 0 < (m + 1) / binade - 1 := fun hlarge =>
          hinside ⟨significandAt_first hfirst, hlarge⟩
        simp only [binade] at *
        omega
      · simp only [binade] at *
        omega
    rw [hsame]

/-- The lower end is the middle to the one before. -/
theorem low_eq {x : Binary64} {m : ℕ} (h : x.magnitude = m + 1) :
    x.quarters.1 * 2 ^ x.doublings = 2 * middle m := by
  have hstep : numeratorAt (m + 1) = numeratorAt m + 2 ^ (m / binade - 1) := numeratorAt_succ m
  have hvalue : numeratorAt (m + 1) = x.significand * 2 ^ x.doublings := by
    rw [← h]
    rfl
  unfold quarters
  dsimp only
  rw [Nat.sub_mul, spacing_below h, Nat.mul_assoc, ← hvalue, middle]
  omega

/-! ## The numbers that round to a double -/

/-- Whether a number rounds to the absolute value of a double other than zero: it lies between the
middles to the neighbours, and it is none of them unless the significand is even. -/
def Attracts (x : Binary64) (q : ℚ) : Prop :=
  if x.takesEnds then
    (middle (x.magnitude - 1) : ℚ) ≤ 2 * unit * q ∧ 2 * unit * q ≤ middle x.magnitude
  else (middle (x.magnitude - 1) : ℚ) < 2 * unit * q ∧ 2 * unit * q < middle x.magnitude

variable {x y : Binary64} {q : ℚ}

/-- What a double attracts does not lie below the middle towards the next smaller one. -/
theorem Attracts.low_le (h : x.Attracts q) : (middle (x.magnitude - 1) : ℚ) ≤ 2 * unit * q := by
  unfold Attracts at h
  split at h
  · exact h.1
  · exact h.1.le

theorem Attracts.le_high (h : x.Attracts q) : 2 * unit * q ≤ middle x.magnitude := by
  unfold Attracts at h
  split at h
  · exact h.2
  · exact h.2.le

/-- Of two neighbours only one has the middle between them. -/
theorem takesEnds_eq (x : Binary64) : x.takesEnds = (x.magnitude % 2 == 0) := by
  rw [takesEnds, significand_eq]
  rcases Nat.lt_or_ge x.magnitude binade with hlt | hge
  · rw [significandAt_of_lt hlt]
  · have hparity : (x.magnitude % binade + binade) % 2 = x.magnitude % 2 := by
      simp only [binade]
      omega
    rw [significandAt_of_le hge, hparity]

/-- Numbers that round to the double of a smaller magnitude are smaller. -/
theorem Attracts.not_lt (hx : x.Attracts q) (hy : y.Attracts q) : ¬ x.magnitude < y.magnitude := by
  intro hlt
  have hends : middle (y.magnitude - 1) ≤ middle x.magnitude := by
    exact_mod_cast hy.low_le.trans hx.le_high
  have hle : y.magnitude - 1 ≤ x.magnitude := middle_strictMono.le_iff_le.mp hends
  have hnext : y.magnitude - 1 = x.magnitude := by omega
  -- the number is the middle between neighbours, and only one of them takes it
  have heven : x.takesEnds = true := by
    by_contra hodd
    unfold Attracts at hx
    rw [if_neg hodd] at hx
    have hlow := hy.low_le
    rw [hnext] at hlow
    linarith [hx.2]
  have heven' : y.takesEnds = true := by
    by_contra hodd
    unfold Attracts at hy
    rw [if_neg hodd, hnext] at hy
    linarith [hx.le_high, hy.1]
  rw [takesEnds_eq, beq_iff_eq] at heven heven'
  omega

/-- A number rounds to doubles of one magnitude only. -/
theorem Attracts.unique (hx : x.Attracts q) (hy : y.Attracts q) : x.magnitude = y.magnitude := by
  have hle : ¬ x.magnitude < y.magnitude := hx.not_lt hy
  have hge : ¬ y.magnitude < x.magnitude := hy.not_lt hx
  omega

/-- Only positive numbers round to a double that is not zero. -/
theorem Attracts.pos (h : x.Attracts q) (hx : x.isZero = false) : 0 < q := by
  have hpos : 0 < x.magnitude := by
    have hne : x.magnitude ≠ 0 := by simpa [isZero] using hx
    omega
  have hmiddle : 0 < middle (x.magnitude - 1) := by
    have hstep : numeratorAt (x.magnitude - 1) < numeratorAt (x.magnitude - 1 + 1) :=
      numeratorAt_strictMono (by omega)
    simp only [middle]
    omega
  have hscaled : (0 : ℚ) < 2 * unit * q := lt_of_lt_of_le (by exact_mod_cast hmiddle) h.low_le
  have hunit : (0 : ℚ) < 2 * unit := mul_pos two_pos (by exact_mod_cast unit_pos)
  exact (mul_pos_iff_of_pos_left hunit).mp hscaled

end Binary64

end RemoteTable
