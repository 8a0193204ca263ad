/-!
# Numerals and blanks

Whole numbers written with ASCII digits. A numeral is read digit by digit, so leading zeros do not
matter and a numeral of any length has a value; readers for a bounded range compare that value with
the bound, and so neither wrap nor cut. Around numerals and words there may be blanks: a character is
blank when it has the Unicode property White_Space, and trimming removes the blank characters at both
ends of a text and nothing else.
-/

namespace RemoteTable

/-! ## Words of 64 bits -/

/-- The end of the signed numbers of 64 bits, the 63rd power of two; they begin at its negative. -/
def signedEnd : Nat := 9223372036854775808

/-- The end of the unsigned numbers of 64 bits, the 64th power of two. -/
def unsignedEnd : Nat := 18446744073709551616

/-! ## Numerals -/

/-- Whether the character is one of the ten ASCII digits. -/
def isDigit (c : Char) : Bool :=
  '0' ≤ c && c ≤ '9'

/-- The value of a digit. -/
def digitValue (c : Char) : Nat :=
  c.toNat - '0'.toNat

/-- The value of digits behind the digits already read. -/
def valueFrom (read : Nat) (digits : List Char) : Nat :=
  digits.foldl (fun n c => 10 * n + digitValue c) read

/-- The value of one or more digits; any other text has none. -/
def numeral? (cs : List Char) : Option Nat :=
  if cs.isEmpty || !cs.all isDigit then none else some (valueFrom 0 cs)

/-- A numeral that may carry a plus sign. -/
def unsigned? : List Char → Option Nat
  | '+' :: cs => numeral? cs
  | cs => numeral? cs

/-- A numeral that may carry a sign. -/
def signed? : List Char → Option Int
  | '-' :: cs => (numeral? cs).map fun n => -(n : Int)
  | cs => (unsigned? cs).map Int.ofNat

/-- The numeral's value when it is below `2 ^ 64`. -/
def unsigned64? (cs : List Char) : Option Nat :=
  (unsigned? cs).filter (· < unsignedEnd)

/-- The numeral's value when it lies between `-2 ^ 63` and `2 ^ 63 - 1`. -/
def signed64? (cs : List Char) : Option Int :=
  (signed? cs).filter fun n => -signedEnd ≤ n && n < signedEnd

/-- The decimal digits of a whole number as text. -/
def decimalText (n : Nat) : String :=
  String.ofList (Nat.toDigits 10 n)

/-- The decimal digits of an integer, behind a minus sign if it is negative. -/
def integerText (n : Int) : String :=
  if n < 0 then "-" ++ decimalText n.natAbs else decimalText n.natAbs

/-! ## Blank characters -/

/-- The characters with the Unicode property White_Space. -/
def isBlank (c : Char) : Bool :=
  let n := c.toNat
  (9 ≤ n && n ≤ 13) || n == 0x20 || n == 0x85 || n == 0xA0 || n == 0x1680 ||
    (0x2000 ≤ n && n ≤ 0x200A) || n == 0x2028 || n == 0x2029 || n == 0x202F || n == 0x205F ||
    n == 0x3000

/-- The characters without the blank ones in front. -/
def trimFront (cs : List Char) : List Char :=
  cs.dropWhile isBlank

/-- The characters without the blank ones at either end. -/
def trimBlanks (cs : List Char) : List Char :=
  (trimFront (trimFront cs).reverse).reverse

/-- The text without the blank characters at either end. -/
def trimText (s : String) : String :=
  String.ofList (trimBlanks s.toList)

end RemoteTable
