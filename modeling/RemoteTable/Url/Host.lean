import RemoteTable.Text.Numeral
import RemoteTable.Url.Percent
import RemoteTable.Url.Punycode

/-!
# Hosts

The host of an address is a name or a number. A name is in lower case, with the labels that are not
ASCII in Punycode; letters outside ASCII are taken as they are. A name whose last label is a number
is an address of 32 bits, in up to four parts; an address of 128 bits stands in brackets, and the
longest run of zeros is left out when it is written.
-/

namespace RemoteTable

/-- The host of an address. -/
inductive Host where
  /-- A name. -/
  | name (text : String)
  /-- An address of 32 bits. -/
  | v4 (address : Nat)
  /-- An address of eight pieces of 16 bits. -/
  | v6 (pieces : List Nat)
deriving DecidableEq, Repr

namespace Host

/-- Splits characters at every separator; there is always one part more than separators. -/
def splitAt (isSeparator : Char → Bool) : List Char → List (List Char)
  | [] => [[]]
  | c :: cs =>
    match splitAt isSeparator cs with
    | [] => [[c]]
    | part :: parts => if isSeparator c then [] :: part :: parts else (c :: part) :: parts

/-! ## Addresses of 32 bits -/

/-- The value of digits to a base, if all of them are digits to it. -/
def valueOf? (base : Nat) (digits : List Char) : Option Nat :=
  digits.foldlM (fun n c => do
    let d ← Percent.hexValue? c
    if d < base then some (base * n + d) else none) 0

/-- The value of a part: hexadecimal behind `0x`, octal behind another zero, else decimal. -/
def part? : List Char → Option Nat
  | [] => none
  | '0' :: 'x' :: digits | '0' :: 'X' :: digits => valueOf? 16 digits
  | ['0'] => some 0
  | '0' :: digits => valueOf? 8 digits
  | digits => valueOf? 10 digits

/-- The labels of a name; a point at the end does not begin another one. -/
def labels (name : List Char) : List (List Char) :=
  match (splitAt (· == '.') name).reverse with
  | [] :: rest@(_ :: _) => rest.reverse
  | parts => parts.reverse

/-- Whether the last label of a name is a number. -/
def endsInNumber (name : List Char) : Bool :=
  match (labels name).getLast? with
  | none | some [] => false
  | some label => label.all isDigit || (part? label).isSome

/-- The address of up to four parts; all but the last are bytes, and the last fills the rest. -/
def v4OfParts? : List Nat → Nat → Option Nat
  | [], _ | _, 0 => none
  | [last], room => if last < Nat.pow 256 room then some last else none
  | byte :: rest, room + 1 => do
    if 256 ≤ byte then none else return byte * Nat.pow 256 room + (← v4OfParts? rest room)

/-- Reads an address of 32 bits. -/
def v4? (name : List Char) : Option Nat := do
  v4OfParts? (← (labels name).mapM part?) 4

/-- The text of an address of 32 bits. -/
def v4Text (address : Nat) : String :=
  ".".intercalate ([24, 16, 8, 0].map fun shift => decimalText (address >>> shift % 256))

/-! ## Addresses of 128 bits -/

/-- The value of one to four hexadecimal digits. -/
def piece? (digits : List Char) : Option Nat :=
  if digits.isEmpty ∨ 4 < digits.length then none else valueOf? 16 digits

/-- The value of a decimal byte without needless zeros. -/
def byte? : List Char → Option Nat
  | ['0'] => some 0
  | '0' :: _ => none
  | digits => (numeral? digits).filter (· < 256)

/-- The two pieces of an address of 32 bits in four parts. -/
def quad? (text : List Char) : Option (List Nat) := do
  match ← (splitAt (· == '.') text).mapM byte? with
  | [a, b, c, d] => some [256 * a + b, 256 * c + d]
  | _ => none

/-- The pieces of a text without a gap; the last two may be four bytes. -/
def pieces? (last : Bool) (text : List Char) : Option (List Nat) :=
  if text.isEmpty then some []
  else
    let parts := splitAt (· == ':') text
    let ending := parts.getLast?.getD []
    if last && ending.contains '.' then do
      return (← parts.dropLast.mapM piece?) ++ (← quad? ending)
    else parts.mapM piece?

/-- A text in front of and behind its first gap, if there is one. -/
def splitGap : List Char → List Char × Option (List Char)
  | ':' :: ':' :: rest => ([], some rest)
  | [] => ([], none)
  | c :: rest =>
    let (front, back) := splitGap rest
    (c :: front, back)

/-- Reads an address of 128 bits. A gap stands for at least one piece. -/
def v6? (text : List Char) : Option (List Nat) := do
  match splitGap text with
  | (front, none) =>
    let pieces ← pieces? true front
    if pieces.length = 8 then some pieces else none
  | (front, some back) =>
    let before ← pieces? false front
    let behind ← pieces? true back
    let given := before.length + behind.length
    if given < 8 then some (before ++ List.replicate (8 - given) 0 ++ behind) else none

/-- The length of the run of zeros in front. -/
def zeroRun (pieces : List Nat) : Nat :=
  (pieces.takeWhile (· = 0)).length

/-- The place and the length of the first of the longest runs of zeros. -/
def longestRun (pieces : List Nat) : Nat × Nat :=
  (List.range pieces.length).foldl (fun (place, length) i =>
    let run := zeroRun (pieces.drop i)
    if length < run then (i, run) else (place, length)) (0, 0)

/-- The hexadecimal digits of a piece. -/
def pieceText (piece : Nat) : String :=
  String.ofList (Nat.toDigits 16 piece)

/-- The text of an address of 128 bits; only runs of two or more zeros are left out. -/
def v6Text (pieces : List Nat) : String :=
  let joined (part : List Nat) : String := ":".intercalate (part.map pieceText)
  match longestRun pieces with
  | (_, 0) | (_, 1) => joined pieces
  | (place, length) => joined (pieces.take place) ++ "::" ++ joined (pieces.drop (place + length))

/-! ## Names -/

/-- The characters that no host holds. -/
def isForbidden (c : Char) : Bool :=
  ['\x00', '\t', '\n', '\r', ' ', '#', '/', ':', '<', '>', '?', '@', '[', '\\', ']', '^',
    '|'].contains c

/-- The characters that no name of a web server holds. -/
def isForbiddenInName (c : Char) : Bool :=
  isForbidden c || c.toNat ≤ 0x1F || c == '%' || c.toNat == 0x7F

/-- The ASCII form of a label. -/
def asciiLabel (label : List Char) : List Char :=
  let lower := label.map Char.toLower
  if lower.all fun c => c.toNat < 0x80 then lower else ['x', 'n', '-', '-'] ++ Punycode.encode lower

/-- The ASCII form of a name. -/
def asciiName (name : List Char) : List Char :=
  ['.'].intercalate ((splitAt (· == '.') name).map asciiLabel)

/-- Reads the host of a web server from the characters between the slashes and the port. -/
def ofName? (text : List Char) : Option Host := do
  let decoded ← String.fromUTF8? ⟨(Percent.decode text).toArray⟩
  let name := asciiName decoded.toList
  if name.isEmpty ∨ name.any isForbiddenInName then none
  else if endsInNumber name then v4 (← v4? name)
  else some (Host.name (String.ofList name))

/-- Reads a host in brackets. -/
def ofBrackets? (text : List Char) : Option Host :=
  match text.getLast? with
  | some ']' => (v6? text.dropLast).map v6
  | _ => none

/-- Reads a host; that of a web server is a name, any other one only has no forbidden character. -/
def ofChars? (special : Bool) : List Char → Option Host
  | '[' :: text => ofBrackets? text
  | text =>
    if special then ofName? text
    else if text.any isForbidden then none
    else some (name (String.ofList (Percent.encode Percent.isControl text)))

/-- The text of a host. -/
def text : Host → String
  | name text => text
  | v4 address => v4Text address
  | v6 pieces => "[" ++ v6Text pieces ++ "]"

end Host

end RemoteTable
