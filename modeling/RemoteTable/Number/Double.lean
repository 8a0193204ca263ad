import RemoteTable.Number.Layout
import RemoteTable.Text.Numeral

/-!
# Doubles with infinities and not-a-number

Settings may hold any double. A double is read from the usual decimal notation or from the names of
the values that have none, and is shown in plain notation.
-/

namespace RemoteTable

/-- A double-precision number, or what takes the place of one. -/
inductive Double where
  /-- A finite number. -/
  | finite (x : Binary64)
  /-- An infinity. -/
  | infinite (negative : Bool)
  /-- No number. -/
  | notANumber
deriving DecidableEq, Repr

namespace Double

/-- The double nearest to `digits * 10 ^ exponent`, an infinity if that is beyond the finite ones. -/
def ofDecimal (negative : Bool) (digits : Nat) (exponent : Int) : Double :=
  match Binary64.ofDecimal negative digits exponent with
  | some x => finite x
  | none => infinite negative

/-- The exponent that follows a mantissa: nothing, or a letter and a signed numeral. -/
def exponent? : List Char → Option Int
  | [] => some 0
  | c :: cs => if c = 'e' ∨ c = 'E' then signed? cs else none

/-- Reads an unsigned decimal number: digits with a point somewhere, at least one digit in all, and
possibly an exponent. -/
def unsigned? (negative : Bool) (cs : List Char) : Option Double :=
  let whole := cs.takeWhile isDigit
  let rest := cs.dropWhile isDigit
  let (fraction, rest) := match rest with
    | '.' :: more => (more.takeWhile isDigit, more.dropWhile isDigit)
    | more => ([], more)
  match numeral? (whole ++ fraction), exponent? rest with
  | some digits, some exponent => some (ofDecimal negative digits (exponent - fraction.length))
  | _, _ => none

/-- Reads a double in decimal notation, or one of the names `inf`, `infinity` and `nan` in any letter
case, behind an optional sign. -/
def ofText? (text : List Char) : Option Double :=
  let (negative, body) := match text with
    | '-' :: more => (true, more)
    | '+' :: more => (false, more)
    | more => (false, more)
  let name := String.ofList (body.map Char.toLower)
  if name = "inf" ∨ name = "infinity" then some (infinite negative)
  else if name = "nan" then some notANumber
  else unsigned? negative body

/-- The text of a double in plain notation. -/
def text : Double → String
  | finite x => NumberLayout.plain.render x
  | infinite negative => if negative then "-inf" else "inf"
  | notANumber => "NaN"

/-- The whole number below `2 ^ 64` that is nearest to a double, where not-a-number counts as zero
and a half goes away from zero. -/
def toCount : Double → Nat
  | finite x => min x.roundAway.toNat (unsignedEnd - 1)
  | infinite negative => if negative then 0 else unsignedEnd - 1
  | notANumber => 0

end Double

end RemoteTable
