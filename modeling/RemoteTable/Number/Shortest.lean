import RemoteTable.Number.Binary64

/-!
# Shortest decimals

The shortest decimal of a double is the one with the fewest digits among all decimals that round
to it, and of those the nearest to its value; an exact tie goes to the even last digit. The search
looks at ever finer decimal grids: on a grid only the two neighbours of the value can be the
nearest hit, and if any grid point rounds to the double, one of these two does.
-/

namespace RemoteTable

/-- The number of decimal digits of a whole number; zero has one. -/
def digitCount (n : Nat) : Nat :=
  (Nat.toDigits 10 n).length

/-- The whole number `digits` times ten to the power `exponent`. -/
structure Decimal where
  /-- The significant digits, read as one whole number. -/
  digits : Nat
  /-- The power of ten that scales the last digit. -/
  exponent : Int
deriving DecidableEq, Repr

namespace Decimal

/-- The power of ten of the first digit. -/
def leadingExponent (d : Decimal) : Int :=
  d.exponent + digitCount d.digits - 1

/-- Drops at most `fuel` trailing zeros of the digits. -/
def stripZeros : Nat → Decimal → Decimal
  | 0, d => d
  | fuel + 1, d =>
    if d.digits % 10 = 0 ∧ d.digits ≠ 0 then stripZeros fuel ⟨d.digits / 10, d.exponent + 1⟩ else d

end Decimal

namespace Binary64

/-- The reals that round to a double, and its own value, as multiples of a quarter of its spacing:
the lower end, the value and the upper end. Below a power of two the doubles are twice as dense. -/
def quarters (x : Binary64) : Nat × Nat × Nat :=
  let value := 4 * x.significand
  let below := if x.significand = binade ∧ 0 < x.doublings then 1 else 2
  (value - below, value, value + 2)

/-- Ends of the interval round to the double exactly when its significand is even. -/
def takesEnds (x : Binary64) : Bool :=
  x.significand % 2 == 0

/-- The power of ten of the first digit of a non-zero double. -/
def leadingExponent (x : Binary64) : Int :=
  if unit ≤ x.numerator then (digitCount (x.numerator / unit) : Int) - 1
  else -(digitCount ((unit + x.numerator - 1) / x.numerator - 1) : Int)

/-- The nearest of the multiples of `10 ^ exponent` that round to the double, if there is one. -/
def nearestOnGrid (x : Binary64) (exponent : Int) : Option Nat :=
  let (low, value, high) := x.quarters
  let scale := Nat.pow 2 x.doublings * Nat.pow 10 (-exponent).toNat
  let step := 4 * unit * Nat.pow 10 exponent.toNat
  let inside (multiple : Nat) : Bool :=
    let point := multiple * step
    if x.takesEnds then low * scale ≤ point && point ≤ high * scale
    else low * scale < point && point < high * scale
  let lower := value * scale / step
  let belowBy := value * scale - lower * step
  let aboveBy := (lower + 1) * step - value * scale
  match inside lower && lower != 0, inside (lower + 1) with
  | true, true =>
    if belowBy < aboveBy then some lower
    else if aboveBy < belowBy then some (lower + 1)
    else if lower % 2 = 0 then some lower
    else some (lower + 1)
  | true, false => some lower
  | false, true => some (lower + 1)
  | false, false => none

/-- Looks for a hit on at most `fuel` grids, from the given one to finer ones. -/
def firstHit (x : Binary64) : Nat → Int → Option Decimal
  | 0, _ => none
  | fuel + 1, exponent =>
    match x.nearestOnGrid exponent with
    | some digits => some ⟨digits, exponent⟩
    | none => firstHit x fuel (exponent - 1)

/-- The shortest decimal of a double's absolute value. Seventeen digits always suffice, and the
grid one above the first digit is tried too, because a value can round up to a power of ten. -/
def shortest (x : Binary64) : Decimal :=
  if x.isZero then ⟨0, 0⟩
  else
    match x.firstHit 18 (x.leadingExponent + 1) with
    | some d => d.stripZeros (digitCount d.digits)
    | none => ⟨0, 0⟩

end Binary64

end RemoteTable
