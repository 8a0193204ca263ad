import Mathlib.Data.Nat.Digits.Defs
import RemoteTable.Proofs.Number.Spacing

/-!
# Shortest decimals round to their doubles

Seventeen digits suffice for every double: on the grid of the seventeenth digit a neighbour of the value
lies between the middles (`Binary64.nearestOnGrid_ne_none`). So the search finds a decimal, and every
decimal it finds rounds to the double (`Binary64.attracts_shortest`). Doubles with the same shortest
decimal have the same magnitude (`Binary64.magnitude_eq_of_shortest`).
-/

namespace RemoteTable

/-! ## Decimals as numbers -/

namespace Decimal

/-- The number that a decimal spells. -/
def value (d : Decimal) : ℚ :=
  d.digits * 10 ^ d.exponent

/-- Zeros at the end only move the exponent. -/
theorem value_stripZeros (fuel : ℕ) (d : Decimal) : (stripZeros fuel d).value = d.value := by
  induction fuel generalizing d with
  | zero => rfl
  | succ fuel ih =>
    rw [stripZeros]
    split
    · rename_i hzero
      rw [ih]
      have hdigits : (d.digits : ℚ) = (d.digits / 10 : ℕ) * 10 := by
        have hnat : d.digits = d.digits / 10 * 10 := by omega
        exact_mod_cast hnat
      show ((d.digits / 10 : ℕ) : ℚ) * 10 ^ (d.exponent + 1) = d.digits * 10 ^ d.exponent
      rw [hdigits, zpow_add_one₀ (by norm_num)]
      ring
    · rfl

end Decimal

/-! ## Digit counts -/

/-- A number has as many digits as its count says, and no more. -/
theorem lt_pow_digitCount (n : ℕ) : n < 10 ^ digitCount n :=
  (Nat.length_toDigits_le_iff (by decide) Nat.length_toDigits_pos).mp le_rfl

/-- A number has as many digits as its count says, and no fewer. -/
theorem pow_digitCount_le {n : ℕ} (h : 0 < n) : 10 ^ (digitCount n - 1) ≤ n := by
  rcases Nat.eq_zero_or_pos (digitCount n - 1) with hone | hmore
  · rw [hone]
    exact h
  · by_contra hlt
    have hcount : digitCount n ≤ digitCount n - 1 :=
      (Nat.length_toDigits_le_iff (by decide) hmore).mpr (Nat.lt_of_not_le hlt)
    omega

namespace Binary64

variable {x y : Binary64}

/-- A double that is not zero has a positive numerator. -/
theorem numerator_pos (h : x.isZero = false) : 0 < x.numerator := by
  have hne : x.magnitude ≠ 0 := by simpa [isZero] using h
  exact numeratorAt_strictMono (Nat.pos_of_ne_zero hne)

/-- The first digit stands at a power of ten that the value reaches. -/
theorem leadingExponent_le (h : x.isZero = false) :
    (10 : ℚ) ^ x.leadingExponent * unit ≤ x.numerator := by
  have hpos : 0 < x.numerator := numerator_pos h
  rw [leadingExponent]
  split
  · rename_i hlarge
    have hwhole : 0 < x.numerator / unit := Nat.div_pos hlarge unit_pos
    have hcount : 0 < digitCount (x.numerator / unit) := Nat.length_toDigits_pos
    have hexponent : (digitCount (x.numerator / unit) : ℤ) - 1 =
        ((digitCount (x.numerator / unit) - 1 : ℕ) : ℤ) := by omega
    have hle : 10 ^ (digitCount (x.numerator / unit) - 1) * unit ≤ x.numerator :=
      (Nat.mul_le_mul_right unit (pow_digitCount_le hwhole)).trans (Nat.div_mul_le_self _ _)
    rw [hexponent, zpow_natCast]
    exact_mod_cast hle
  · -- the inverse of the value, rounded up, has the digits that are counted
    generalize hceil : (unit + x.numerator - 1) / x.numerator = ceil
    have hunit : unit ≤ ceil * x.numerator := by
      have hdiv := Nat.div_add_mod (unit + x.numerator - 1) x.numerator
      have hmod := Nat.mod_lt (unit + x.numerator - 1) hpos
      rw [hceil, Nat.mul_comm] at hdiv
      omega
    have hlt : ceil - 1 < 10 ^ digitCount (ceil - 1) := lt_pow_digitCount (ceil - 1)
    have hle : unit ≤ 10 ^ digitCount (ceil - 1) * x.numerator :=
      hunit.trans (Nat.mul_le_mul_right _ (by omega))
    rw [zpow_neg, zpow_natCast, inv_mul_le_iff₀ (by positivity)]
    exact_mod_cast hle

/-! ## Grids -/

/-- What the ends and the value in quarters are scaled by, to be compared with points of a grid. -/
def gridScale (x : Binary64) (exponent : ℤ) : ℕ :=
  2 ^ x.doublings * 10 ^ (-exponent).toNat

/-- The distance of the points of a grid in the same measure. -/
def gridStep (exponent : ℤ) : ℕ :=
  4 * unit * 10 ^ exponent.toNat

/-- Whether a point of a grid rounds to a double. -/
def inside (x : Binary64) (exponent : ℤ) (multiple : ℕ) : Bool :=
  if x.takesEnds then
    decide (x.quarters.1 * x.gridScale exponent ≤ multiple * gridStep exponent) &&
      decide (multiple * gridStep exponent ≤ x.quarters.2.2 * x.gridScale exponent)
  else
    decide (x.quarters.1 * x.gridScale exponent < multiple * gridStep exponent) &&
      decide (multiple * gridStep exponent < x.quarters.2.2 * x.gridScale exponent)

/-- The nearer one of the two neighbours of a value, if both of them are hits, or the only hit. -/
def nearer (hit : ℕ → Bool) (value step : ℕ) : Option ℕ :=
  let lower := value / step
  let belowBy := value - lower * step
  let aboveBy := (lower + 1) * step - value
  match hit lower && lower != 0, hit (lower + 1) with
  | true, true =>
    if belowBy < aboveBy then some lower
    else if aboveBy < belowBy then some (lower + 1)
    else if lower % 2 = 0 then some lower
    else some (lower + 1)
  | true, false => some lower
  | false, true => some (lower + 1)
  | false, false => none

/-- The nearest number of a grid is the nearer one of the two neighbours that hits. -/
theorem nearestOnGrid_eq (x : Binary64) (exponent : ℤ) : x.nearestOnGrid exponent =
    nearer (x.inside exponent) (4 * x.significand * x.gridScale exponent) (gridStep exponent) := rfl

theorem hit_of_nearer {hit : ℕ → Bool} {value step k : ℕ} (h : nearer hit value step = some k) :
    hit k = true := by
  unfold nearer at h
  dsimp only at h
  split at h
  case h_1 hlower hupper =>
    have hlower' : hit (value / step) = true := (Bool.and_eq_true_iff.mp hlower).1
    split at h
    · exact Option.some.inj h ▸ hlower'
    split at h
    · exact Option.some.inj h ▸ hupper
    split at h
    · exact Option.some.inj h ▸ hlower'
    · exact Option.some.inj h ▸ hupper
  case h_2 hlower _ => exact Option.some.inj h ▸ (Bool.and_eq_true_iff.mp hlower).1
  case h_3 hupper => exact Option.some.inj h ▸ hupper
  case h_4 => cases h

/-- A neighbour that hits is found, unless it is zero. -/
theorem nearer_ne_none {hit : ℕ → Bool} {value step : ℕ}
    (h : (hit (value / step) = true ∧ value / step ≠ 0) ∨ hit (value / step + 1) = true) :
    nearer hit value step ≠ none := by
  unfold nearer
  dsimp only
  split
  case h_1 =>
    split
    · exact Option.some_ne_none _
    split
    · exact Option.some_ne_none _
    split
    · exact Option.some_ne_none _
    · exact Option.some_ne_none _
  case h_2 => simp
  case h_3 => simp
  case h_4 hlower hupper =>
    rcases h with ⟨hhit, hne⟩ | hhit
    · simp [hhit, hne] at hlower
    · simp [hhit] at hupper

/-! ## Hits -/

/-- Points of a grid are compared with numbers of half spacings by cross multiplication. -/
theorem exists_scale (exponent : ℤ) (k : ℕ) : ∃ c : ℚ, 0 < c ∧
    ((k * gridStep exponent : ℕ) : ℚ) = 2 * unit * (k * 10 ^ exponent) * c ∧
    ∀ quarters halves : ℕ, quarters * 2 ^ x.doublings = 2 * halves →
      ((quarters * x.gridScale exponent : ℕ) : ℚ) = halves * c := by
  refine ⟨2 * 10 ^ (-exponent).toNat, by positivity, ?_, fun quarters halves heq => ?_⟩
  · have hpow : (10 : ℚ) ^ exponent * 10 ^ (-exponent).toNat = 10 ^ exponent.toNat := by
      rw [← zpow_natCast, ← zpow_natCast, ← zpow_add₀ (by norm_num)]
      congr 1
      omega
    rw [gridStep]
    push_cast
    rw [← hpow]
    ring
  · have hcast : (quarters : ℚ) * 2 ^ x.doublings = 2 * halves := by exact_mod_cast heq
    rw [gridScale]
    push_cast
    rw [← mul_assoc, hcast]
    ring

/-- The points of a grid that are hits are those that round to the double. -/
theorem inside_iff (h : x.isZero = false) (exponent : ℤ) (k : ℕ) :
    x.inside exponent k = true ↔ x.Attracts (k * 10 ^ exponent) := by
  have hne : x.magnitude ≠ 0 := by simpa [isZero] using h
  have hmagnitude : x.magnitude = x.magnitude - 1 + 1 := by omega
  obtain ⟨c, hc, hpoint, hend⟩ := exists_scale (x := x) exponent k
  have hlow := hend _ _ (low_eq hmagnitude)
  have hhigh := hend _ _ (high_eq x)
  unfold inside Attracts
  split
  · rw [Bool.and_eq_true_iff, decide_eq_true_iff, decide_eq_true_iff,
      ← Nat.cast_le (α := ℚ), ← Nat.cast_le (α := ℚ), hpoint, hlow, hhigh,
      mul_le_mul_iff_of_pos_right hc, mul_le_mul_iff_of_pos_right hc]
  · rw [Bool.and_eq_true_iff, decide_eq_true_iff, decide_eq_true_iff,
      ← Nat.cast_lt (α := ℚ), ← Nat.cast_lt (α := ℚ), hpoint, hlow, hhigh,
      mul_lt_mul_iff_of_pos_right hc, mul_lt_mul_iff_of_pos_right hc]

/-- A point strictly between the ends is a hit. -/
theorem inside_of_lt {exponent : ℤ} {k : ℕ}
    (hlow : x.quarters.1 * x.gridScale exponent < k * gridStep exponent)
    (hhigh : k * gridStep exponent < x.quarters.2.2 * x.gridScale exponent) :
    x.inside exponent k = true := by
  unfold inside
  split
  · rw [Bool.and_eq_true_iff, decide_eq_true_iff, decide_eq_true_iff]
    exact ⟨hlow.le, hhigh.le⟩
  · rw [Bool.and_eq_true_iff, decide_eq_true_iff, decide_eq_true_iff]
    exact ⟨hlow, hhigh⟩

/-- A significand is less than two binades. -/
theorem significand_lt (x : Binary64) : x.significand < 2 * binade := by
  rw [significand]
  split
  · omega
  · have hmod : x.magnitude % binade < binade := Nat.mod_lt _ (by decide)
    omega

/-- Sixteen places behind the first digit the points of the grid are close together. -/
theorem gridStep_le (h : x.isZero = false) :
    10 ^ 16 * gridStep (x.leadingExponent - 16) ≤
      4 * x.significand * x.gridScale (x.leadingExponent - 16) := by
  obtain ⟨c, hc, hpoint, hend⟩ := exists_scale (x := x) (x.leadingExponent - 16) (10 ^ 16)
  have hvalue : 4 * x.significand * 2 ^ x.doublings = 2 * (2 * x.numerator) := by
    rw [numerator_eq, numeratorAt, ← significand_eq]
    show _ = 2 * (2 * (x.significand * 2 ^ x.doublings))
    ring
  have hpow : ((10 ^ 16 : ℕ) : ℚ) * 10 ^ (x.leadingExponent - 16) = 10 ^ x.leadingExponent := by
    rw [zpow_sub₀ (by norm_num)]
    norm_num
    ring
  rw [← Nat.cast_le (α := ℚ), hpoint, hend _ _ hvalue, hpow]
  refine mul_le_mul_of_nonneg_right ?_ hc.le
  push_cast
  linarith [leadingExponent_le h]

/-- On the grid of the seventeenth digit there is a hit. -/
theorem nearestOnGrid_ne_none (h : x.isZero = false) :
    x.nearestOnGrid (x.leadingExponent - 16) ≠ none := by
  have hfine := gridStep_le h
  rw [nearestOnGrid_eq]
  apply nearer_ne_none
  generalize x.leadingExponent - 16 = exponent at *
  have hpos : 0 < x.significand := Nat.pos_of_mul_pos_right (numerator_pos h)
  have hbound : x.significand < 2 * binade := significand_lt x
  have hstep : 0 < gridStep exponent := Nat.mul_pos (Nat.mul_pos (by decide) unit_pos) (by positivity)
  have hscale : 0 < x.gridScale exponent := Nat.mul_pos (by positivity) (by positivity)
  obtain ⟨below, hbelow, hlow, hwidth⟩ : ∃ below, below ≤ 4 * x.significand ∧
      x.quarters.1 = 4 * x.significand - below ∧ 4 * x.significand < 10 ^ 16 * (below + 2) := by
    refine ⟨if x.significand = binade ∧ 0 < x.doublings then 1 else 2, ?_, rfl, ?_⟩
    · split <;> omega
    · split <;> simp only [binade] at * <;> omega
  -- the points are closer together than the ends of the interval
  have hnarrow : gridStep exponent < (below + 2) * x.gridScale exponent := by
    have hscaled := hfine.trans_lt (Nat.mul_lt_mul_of_pos_right hwidth hscale)
    rw [Nat.mul_assoc] at hscaled
    exact Nat.lt_of_mul_lt_mul_left hscaled
  rw [Nat.add_mul] at hnarrow
  have hends : x.quarters.1 * x.gridScale exponent =
      4 * x.significand * x.gridScale exponent - below * x.gridScale exponent ∧
      x.quarters.2.2 * x.gridScale exponent =
        4 * x.significand * x.gridScale exponent + 2 * x.gridScale exponent := by
    rw [hlow, Nat.sub_mul, ← Nat.add_mul]
    exact ⟨rfl, rfl⟩
  have hbelow' := Nat.mul_le_mul_right (x.gridScale exponent) hbelow
  generalize 4 * x.significand * x.gridScale exponent = value at *
  have hlower : value / gridStep exponent * gridStep exponent ≤ value := Nat.div_mul_le_self _ _
  have hupper : value < (value / gridStep exponent + 1) * gridStep exponent := by
    have hmod := Nat.mod_lt value hstep
    have hdiv := Nat.div_add_mod' value (gridStep exponent)
    rw [Nat.succ_mul]
    omega
  rcases Nat.lt_or_ge value
    (value / gridStep exponent * gridStep exponent + below * x.gridScale exponent) with hnear | hfar
  · -- the lower neighbour is above the lower end
    refine .inl ⟨inside_of_lt ?_ ?_, ?_⟩
    · omega
    · omega
    · have hle : gridStep exponent ≤ value := by omega
      exact (Nat.div_pos hle hstep).ne'
  · -- the lower neighbour is far from the value, so the upper one is near
    refine .inr (inside_of_lt ?_ ?_)
    · omega
    · rw [Nat.succ_mul]
      omega

/-! ## The search -/

/-- What is found is a hit. -/
theorem nearestOnGrid_of_firstHit {fuel : ℕ} {exponent : ℤ} {d : Decimal}
    (h : x.firstHit fuel exponent = some d) : x.nearestOnGrid d.exponent = some d.digits := by
  induction fuel generalizing exponent with
  | zero => cases h
  | succ fuel ih =>
    rw [firstHit] at h
    split at h
    · rename_i digits hdigits
      cases h
      exact hdigits
    · exact ih h

/-- A grid with a hit ends the search if it is reached. -/
theorem firstHit_ne_none {fuel places : ℕ} {exponent : ℤ} (hplaces : places < fuel)
    (h : x.nearestOnGrid (exponent - places) ≠ none) : x.firstHit fuel exponent ≠ none := by
  induction fuel generalizing places exponent with
  | zero => omega
  | succ fuel ih =>
    rw [firstHit]
    split
    · exact Option.some_ne_none _
    · rename_i hnone
      cases places with
      | zero =>
        rw [Nat.cast_zero, sub_zero] at h
        exact absurd hnone h
      | succ places =>
        apply ih (Nat.lt_of_succ_lt_succ hplaces)
        have hexponent : exponent - 1 - places = exponent - (places + 1 : ℕ) := by omega
        rwa [hexponent]

/-- The shortest decimal rounds to its double. -/
theorem attracts_shortest (h : x.isZero = false) : x.Attracts x.shortest.value := by
  have hfine : x.nearestOnGrid (x.leadingExponent + 1 - (17 : ℕ)) ≠ none := by
    have hexponent : x.leadingExponent + 1 - (17 : ℕ) = x.leadingExponent - 16 := by omega
    rw [hexponent]
    exact nearestOnGrid_ne_none h
  have hfound : x.firstHit 18 (x.leadingExponent + 1) ≠ none :=
    firstHit_ne_none (by decide) hfine
  obtain ⟨d, hd⟩ := Option.ne_none_iff_exists'.mp hfound
  have hhit : x.inside d.exponent d.digits = true := by
    have hnearest := nearestOnGrid_of_firstHit hd
    rw [nearestOnGrid_eq] at hnearest
    exact hit_of_nearer hnearest
  have hshortest : x.shortest = d.stripZeros (digitCount d.digits) := by
    simp [shortest, h, hd]
  rw [hshortest, Decimal.value_stripZeros]
  exact (inside_iff h d.exponent d.digits).mp hhit

/-- The shortest decimal of zero is zero. -/
theorem shortest_of_isZero (h : x.isZero = true) : x.shortest = ⟨0, 0⟩ :=
  if_pos h

/-- Doubles with one shortest decimal are the same up to the sign. -/
theorem magnitude_eq_of_shortest (h : x.shortest.value = y.shortest.value) :
    x.magnitude = y.magnitude := by
  have hzero : ∀ {z : Binary64}, z.isZero = true → z.shortest.value = 0 := by
    intro z hz
    rw [shortest_of_isZero hz]
    simp [Decimal.value]
  have hpos : ∀ {z : Binary64}, z.isZero = false → 0 < z.shortest.value := fun hz =>
    (attracts_shortest hz).pos hz
  cases hx : x.isZero <;> cases hy : y.isZero
  · exact (attracts_shortest hx).unique (h ▸ attracts_shortest hy)
  · have hlt := hpos hx
    rw [h, hzero hy] at hlt
    exact absurd hlt (lt_irrefl 0)
  · have hlt := hpos hy
    rw [← h, hzero hx] at hlt
    exact absurd hlt (lt_irrefl 0)
  · rw [isZero, beq_iff_eq] at hx hy
    rw [hx, hy]

end Binary64

end RemoteTable
