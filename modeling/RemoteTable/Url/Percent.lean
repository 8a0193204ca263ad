/-!
# Percent-encoding

A character that may not stand for itself in a part of an address is written as the bytes of its
UTF-8 form, each as a percent sign and two hexadecimal digits. Which characters those are depends on
the part; characters outside printable ASCII are never among those that stand for themselves.
-/

namespace RemoteTable

namespace Percent

/-- The digit of a value below sixteen. -/
def hexDigit (n : Nat) : Char :=
  if n < 10 then Char.ofNat (0x30 + n) else Char.ofNat (0x41 + n - 10)

/-- The value of a hexadecimal digit. -/
def hexValue? (c : Char) : Option Nat :=
  if '0' ≤ c ∧ c ≤ '9' then some (c.toNat - 0x30)
  else if 'a' ≤ c ∧ c ≤ 'f' then some (c.toNat - 0x61 + 10)
  else if 'A' ≤ c ∧ c ≤ 'F' then some (c.toNat - 0x41 + 10)
  else none

/-- The form of a byte. -/
def encodeByte (b : UInt8) : List Char :=
  ['%', hexDigit (b.toNat / 16), hexDigit (b.toNat % 16)]

/-- Writes characters; those of the set in the form of their bytes. -/
def encode (set : Char → Bool) (cs : List Char) : List Char :=
  cs.flatMap fun c =>
    if set c then (String.utf8EncodeChar c).flatMap encodeByte else [c]

/-- The bytes that characters stand for; a percent sign without two digits stands for itself. -/
def decode : List Char → List UInt8
  | [] => []
  | '%' :: a :: b :: cs =>
    match hexValue? a, hexValue? b with
    | some high, some low => UInt8.ofNat (16 * high + low) :: decode cs
    | _, _ => 0x25 :: decode (a :: b :: cs)
  | c :: cs => String.utf8EncodeChar c ++ decode cs

/-! ## Sets of characters -/

/-- Whether a character is outside printable ASCII. -/
def isControl (c : Char) : Bool :=
  c.toNat < 0x20 || 0x7E < c.toNat

/-- The characters that a fragment does not hold. -/
def inFragment (c : Char) : Bool :=
  isControl c || [' ', '"', '<', '>', '\x60'].contains c

/-- The characters that a path does not hold. -/
def inPath (c : Char) : Bool :=
  inFragment c || ['#', '?', '\x7b', '\x7d'].contains c

/-- The characters that a name or a password does not hold. -/
def inIdentity (c : Char) : Bool :=
  inPath c || ['/', ':', ';', '=', '@', '[', '\\', ']', '^', '|'].contains c

/-- The characters that a query does not hold; `special` is for the schemes of the web. -/
def inQuery (special : Bool) (c : Char) : Bool :=
  isControl c || [' ', '"', '#', '<', '>'].contains c || (special && c == '\x27')

end Percent

end RemoteTable
