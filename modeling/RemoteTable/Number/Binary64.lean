/-!
# Finite double-precision numbers

A finite IEEE 754 double is a sign and a magnitude. The magnitude is the number that the low
63 bits spell, so magnitudes are ordered as the values are, and the value of a magnitude is a
whole significand times a power of two. Everything here is exact arithmetic on natural numbers:
`roundHalfEven` rounds a quotient to the nearest whole number with ties to the even one, and
`Binary64.ofRatio` rounds a quotient to the nearest double in the same way.
-/

namespace RemoteTable

/-- The quotient `numerator / denominator` rounded to the nearest whole number, a half to the even
one. -/
def roundHalfEven (numerator denominator : Nat) : Nat :=
  let whole := numerator / denominator
  let rest := numerator % denominator
  if 2 * rest < denominator then whole
  else if denominator < 2 * rest then whole + 1
  else if whole % 2 = 0 then whole
  else whole + 1

/-- The number of doubles in a binade, the 52nd power of two. -/
def binade : Nat := 4503599627370496

/-- A finite double: its sign and the number spelled by its other 63 bits. -/
structure Binary64 where
  /-- The sign bit. -/
  negative : Bool
  /-- The bits below the sign, as a number. -/
  magnitude : Nat
  /-- Infinities and not-a-number have the largest exponent field and are left out. -/
  finite : magnitude < 2047 * binade
deriving DecidableEq, Repr

namespace Binary64

/-! ## Value of a double -/

/-- Zero with the given sign. -/
def zero (negative : Bool) : Binary64 :=
  ⟨negative, 0, by decide⟩

/-- The finite double furthest from zero on the given side. -/
def largest (negative : Bool) : Binary64 :=
  ⟨negative, 2047 * binade - 1, by decide⟩

/-- The steps of doubling between the smallest spacing of doubles, `2 ^ (-1074)`, and the spacing
around this one. -/
def doublings (x : Binary64) : Nat :=
  x.magnitude / binade - 1

/-- The whole number of spacings in the absolute value. -/
def significand (x : Binary64) : Nat :=
  if x.magnitude < binade then x.magnitude else x.magnitude % binade + binade

/-- The numerator of the absolute value over `unit`. -/
def numerator (x : Binary64) : Nat :=
  x.significand * Nat.pow 2 x.doublings

/-- The number of smallest spacings in one. -/
def unit : Nat :=
  Nat.pow 2 1074

/-- Whether the double is zero of either sign. -/
def isZero (x : Binary64) : Bool :=
  x.magnitude == 0

/-- Numeric equality: the two zeros are equal, otherwise sign and magnitude decide. -/
def sameValue (x y : Binary64) : Bool :=
  x.magnitude == y.magnitude && (x.isZero || x.negative == y.negative)

/-- The same absolute value with the opposite sign. -/
def neg (x : Binary64) : Binary64 :=
  { x with negative := !x.negative }

/-! ## Rounding to the nearest double -/

/-- The doublings of the binade that holds `numerator / denominator`: its spacing puts between
`2 ^ 52` and `2 ^ 53` of itself into the quotient, unless the quotient is too small for that. -/
def doublingsOfRatio (numerator denominator : Nat) : Nat :=
  let scaled := numerator * unit
  let estimate := scaled.log2 - denominator.log2
  let exponent := if denominator * Nat.pow 2 estimate ≤ scaled then estimate else estimate - 1
  exponent - 52

/-- The magnitude nearest to `numerator / denominator`, with a tie to the even one. It can lie
beyond the finite doubles. -/
def magnitudeOfRatio (numerator denominator : Nat) : Nat :=
  if numerator = 0 then 0
  else
    let steps := doublingsOfRatio numerator denominator
    steps * binade + roundHalfEven (numerator * unit) (denominator * Nat.pow 2 steps)

/-- The double nearest to `numerator / denominator` with the given sign, a tie going to the even
magnitude; nothing when that is beyond the finite doubles. -/
def ofRatio (negative : Bool) (numerator denominator : Nat) : Option Binary64 :=
  if h : magnitudeOfRatio numerator denominator < 2047 * binade then
    some ⟨negative, magnitudeOfRatio numerator denominator, h⟩
  else none

/-- The double nearest to a whole number; a whole number beyond the finite doubles gives the largest
one. -/
def ofInt (n : Int) : Binary64 :=
  let negative := decide (n < 0)
  (ofRatio negative n.natAbs 1).getD (largest negative)

/-- The double nearest to the quotient of two counts, zero when the second is zero. -/
def ofQuotient (part whole : Nat) : Binary64 :=
  if whole = 0 then zero false else (ofRatio false part whole).getD (largest false)

/-- The product rounded to the nearest double, nothing when it overflows. -/
def mul? (x y : Binary64) : Option Binary64 :=
  ofRatio (x.negative != y.negative) (x.numerator * y.numerator) (unit * unit)

/-- The quotient rounded to the nearest double, nothing when it overflows or the divisor is zero. -/
def div? (x y : Binary64) : Option Binary64 :=
  if y.isZero then none
  else ofRatio (x.negative != y.negative) x.numerator y.numerator

/-- The power of ten as the nearest double. -/
def tenPow (exponent : Nat) : Option Binary64 :=
  ofRatio false (Nat.pow 10 exponent) 1

/-- The double nearest to `digits * 10 ^ exponent` with the given sign, nothing when that is beyond
the finite doubles. Exponents far outside the range of doubles are answered without computing the
power: any positive whole number times `10 ^ 401` overflows, and `digits` is below
`10 ^ (digits.log2 + 1)`. -/
def ofDecimal (negative : Bool) (digits : Nat) (exponent : Int) : Option Binary64 :=
  if digits = 0 then some (zero negative)
  else if 400 < exponent then none
  else if exponent < -(400 + (digits.log2 : Int)) then some (zero negative)
  else if 0 ≤ exponent then ofRatio negative (digits * Nat.pow 10 exponent.toNat) 1
  else ofRatio negative digits (Nat.pow 10 (-exponent).toNat)

/-- The double rounded to the nearest whole number, a half going away from zero. -/
def roundAway (x : Binary64) : Int :=
  let whole := (2 * x.numerator + unit) / (2 * unit)
  if x.negative then -(whole : Int) else whole

end Binary64

end RemoteTable
