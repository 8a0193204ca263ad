import RemoteTable.Number.Shortest
import RemoteTable.Text.Numeral

/-!
# Layout of decimal numbers

How a number is spelled once its digits are known: for which exponents it is written with a plain
decimal point, how a whole number ends, and how an exponent is written otherwise. The layouts of
this library are the values `NumberLayout.wire`, used in documents and messages, and
`NumberLayout.plain`, used where a number stands for a text.
-/

namespace RemoteTable

/-- The decisions of a number format. -/
structure NumberLayout where
  /-- Whether a number whose first digit has this power of ten is written without an exponent. -/
  positional : Int → Bool
  /-- What follows the digits of a whole number. -/
  wholeEnding : String

namespace NumberLayout

/-- Decimal notation for exponents from -5 to 15 and a visible fraction for whole numbers, so that
a double never looks like an integer. -/
def wire : NumberLayout where
  positional exponent := -5 ≤ exponent && exponent ≤ 15
  wholeEnding := ".0"

/-- Decimal notation throughout, without a fraction for whole numbers. -/
def plain : NumberLayout where
  positional _ := true
  wholeEnding := ""

/-- The digits with the decimal point put where the exponent asks for it. -/
def renderPositional (layout : NumberLayout) (d : Decimal) : String :=
  let digits := Nat.toDigits 10 d.digits
  if 0 ≤ d.exponent then
    String.ofList (digits ++ List.replicate d.exponent.toNat '0') ++ layout.wholeEnding
  else
    let places := (-d.exponent).toNat
    let padded := List.replicate (places + 1 - digits.length) '0' ++ digits
    String.ofList (padded.take (padded.length - places)) ++ "." ++
      String.ofList (padded.drop (padded.length - places))

/-- One digit, the others behind a point, and the signed exponent. -/
def renderScientific (d : Decimal) : String :=
  let exponent := d.leadingExponent
  let exponentText := (if 0 ≤ exponent then "e+" else "e-") ++ decimalText exponent.natAbs
  match Nat.toDigits 10 d.digits with
  | [] => exponentText
  | [digit] => String.ofList [digit] ++ exponentText
  | digit :: more => String.ofList (digit :: '.' :: more) ++ exponentText

/-- The text of a double. -/
def render (layout : NumberLayout) (x : Binary64) : String :=
  let d := x.shortest
  (if x.negative then "-" else "") ++
    if layout.positional d.leadingExponent then layout.renderPositional d else renderScientific d

end NumberLayout

end RemoteTable
