import RemoteTable.Json.Basic
import RemoteTable.Text.Numeral

/-!
# Reading JSON text

A text is read as one value with blanks around it, or refused. Sequences and objects may be nested
in at most 127 levels; a number beyond the range of doubles, half a surrogate pair and a control
character inside a string are refused. Of a repeated member name the last value counts.

A number with a fraction or an exponent, or an integer outside the exact range, is read with the
precision of doubles: its leading digits are taken as a number of 64 bits, rounded to a double, and
that is scaled by one rounded power of ten.
-/

namespace RemoteTable

namespace Json

/-! ## Numbers -/

/-- Divides a double by a power of ten, in strides of `10 ^ 308` when the power itself is beyond the
doubles. After two strides any number of 64 bits has become zero, so three suffice. -/
def scaleDown : Nat → Binary64 → Nat → Option Binary64
  | 0, x, _ => some x
  | strides + 1, x, exponent =>
    if exponent ≤ 308 then (Binary64.tenPow exponent).bind x.div?
    else if x.isZero then some x
    else
      match (Binary64.tenPow 308).bind x.div? with
      | some y => scaleDown strides y (exponent - 308)
      | none => none

/-- The double `significand * 10 ^ exponent`, each step rounded; nothing when it overflows. -/
def scaled (significand : Nat) (exponent : Int) : Option Binary64 :=
  let x := Binary64.ofInt significand
  if exponent < 0 then scaleDown 3 x (-exponent).toNat
  else if x.isZero then some x
  else if 308 < exponent then none
  else (Binary64.tenPow exponent.toNat).bind x.mul?

/-- Takes one more digit of the whole part: the significand grows while it fits in 64 bits, and from
the first digit that does not fit on only the exponent does. -/
def takeWholeDigit (state : Nat × Nat) (c : Char) : Nat × Nat :=
  let grown := 10 * state.1 + digitValue c
  if state.2 = 0 ∧ grown < unsignedEnd then (grown, 0) else (state.1, state.2 + 1)

/-- The digits behind the point go on with the significand until one does not fit; the rest of them
is left out. Gives the significand and the number of digits taken. -/
def takeFraction (significand taken : Nat) : List Char → Nat × Nat
  | [] => (significand, taken)
  | c :: cs =>
    let grown := 10 * significand + digitValue c
    if grown < unsignedEnd then takeFraction grown (taken + 1) cs else (significand, taken)

/-- The parts of a number as they are written. -/
structure NumberParts where
  /-- Whether a minus sign stands in front. -/
  negative : Bool
  /-- The digits before the point. -/
  whole : List Char
  /-- The digits behind the point, if there is one. -/
  fraction : Option (List Char)
  /-- The exponent, if there is one. -/
  exponent : Option Int

/-- The number that the parts stand for. -/
def NumberParts.value (parts : NumberParts) : Option Number :=
  let signed (x : Binary64) : Number := .double (if parts.negative then x.neg else x)
  let n := valueFrom 0 parts.whole
  let (significand, dropped) := parts.whole.foldl takeWholeDigit (0, 0)
  match parts.fraction, parts.exponent with
  | none, none =>
    if dropped = 0 then
      if parts.negative then
        if n = 0 then some (signed (Binary64.zero false))
        else match WireInt.ofInt? (-(n : Int)) with
          | some k => some (.integer k)
          | none => some (signed (Binary64.ofInt n))
      else (WireInt.ofInt? n).map .integer
    else (scaled significand dropped).map signed
  | fraction, exponent =>
    let (significand, taken) := takeFraction significand 0 (fraction.getD [])
    (scaled significand ((dropped : Int) - taken + exponent.getD 0)).map signed

/-- Splits an exponent off, if the text begins with one. -/
def readExponent : List Char → Option (Option Int × List Char)
  | c :: cs =>
    if c = 'e' ∨ c = 'E' then
      let (negative, body) := match cs with
        | '+' :: more => (false, more)
        | '-' :: more => (true, more)
        | more => (false, more)
      match numeral? (body.takeWhile isDigit) with
      | some n => some (some (if negative then -(n : Int) else n), body.dropWhile isDigit)
      | none => none
    else some (none, c :: cs)
  | [] => some (none, [])

/-- Splits a fraction off, if the text begins with one. -/
def readFraction : List Char → Option (Option (List Char) × List Char)
  | '.' :: cs =>
    let digits := cs.takeWhile isDigit
    if digits.isEmpty then none else some (some digits, cs.dropWhile isDigit)
  | cs => some (none, cs)

/-- Reads a number at the front of a text. -/
def readNumber (cs : List Char) : Option (Number × List Char) :=
  let (negative, body) := match cs with
    | '-' :: more => (true, more)
    | more => (false, more)
  let whole := body.takeWhile isDigit
  let spelled := match whole with
    | [] => false
    | ['0'] => true
    | c :: _ => c != '0'
  if spelled then do
    let (fraction, rest) ← readFraction (body.dropWhile isDigit)
    let (exponent, rest) ← readExponent rest
    let n ← NumberParts.value ⟨negative, whole, fraction, exponent⟩
    some (n, rest)
  else none

/-! ## Strings -/

/-- The value of a hexadecimal digit of either case. -/
def hexValue? (c : Char) : Option Nat :=
  if isDigit c then some (digitValue c)
  else if 'a' ≤ c ∧ c ≤ 'f' then some (c.toNat - 'a'.toNat + 10)
  else if 'A' ≤ c ∧ c ≤ 'F' then some (c.toNat - 'A'.toNat + 10)
  else none

/-- The character that a backslash and this letter stand for. -/
def unescape? (c : Char) : Option Char :=
  if c = '"' ∨ c = '\\' ∨ c = '/' then some c
  else if c = 'b' then some '\x08'
  else if c = 'f' then some '\x0c'
  else if c = 'n' then some '\n'
  else if c = 'r' then some '\r'
  else if c = 't' then some '\t'
  else none

/-- Where the reader of a string stands. -/
inductive StringPlace where
  /-- Between characters. -/
  | plain
  /-- Behind a backslash. -/
  | escaped
  /-- Inside the hexadecimal digits of a code unit, with so many still to come. -/
  | unit (left value : Nat)

/-- Whether a code unit is the first half of a surrogate pair. -/
def isHighSurrogate (n : Nat) : Bool :=
  0xD800 ≤ n && n < 0xDC00

/-- Whether a code unit is the second half of a surrogate pair. -/
def isLowSurrogate (n : Nat) : Bool :=
  0xDC00 ≤ n && n < 0xE000

/-- Reads the rest of a string up to its closing quote. `pending` is the first half of a surrogate
pair whose second half has to follow at once, `read` the characters so far in reverse. -/
def readString (pending : Option Nat) (place : StringPlace) (read : List Char) :
    List Char → Option (String × List Char)
  | [] => none
  | c :: cs =>
    match place with
    | .plain =>
      if c = '\\' then readString pending .escaped read cs
      else if pending.isSome then none
      else if c = '"' then some (String.ofList read.reverse, cs)
      else if c < ' ' then none
      else readString none .plain (c :: read) cs
    | .escaped =>
      if c = 'u' then readString pending (.unit 4 0) read cs
      else if pending.isSome then none
      else match unescape? c with
        | some plain => readString none .plain (plain :: read) cs
        | none => none
    | .unit left value =>
      match hexValue? c with
      | none => none
      | some digit =>
        let value := 16 * value + digit
        if 1 < left then readString pending (.unit (left - 1) value) read cs
        else match pending with
          | some high =>
            if isLowSurrogate value then
              let scalar := 0x10000 + (high - 0xD800) * 0x400 + (value - 0xDC00)
              readString none .plain (Char.ofNat scalar :: read) cs
            else none
          | none =>
            if isHighSurrogate value then readString (some value) .plain read cs
            else if isLowSurrogate value then none
            else readString none .plain (Char.ofNat value :: read) cs

/-! ## Values -/

/-- Whether a character may stand between the parts of a document. -/
def isGap (c : Char) : Bool :=
  c == ' ' || c == '\n' || c == '\t' || c == '\r'

/-- The text behind its leading gap. -/
def skipGap (cs : List Char) : List Char :=
  cs.dropWhile isGap

/-- The text behind a word, if it begins with it. -/
def behind? (word : List Char) (cs : List Char) : Option (List Char) :=
  if word.isPrefixOf cs then some (cs.drop word.length) else none

mutual

/-- Reads a value at the front of a text. `depth` is the number of levels still allowed; `fuel`
bounds the number of nested steps and is given by the length of the text. -/
def readValue : (fuel depth : Nat) → List Char → Option (Json × List Char)
  | 0, _, _ => none
  | fuel + 1, depth, text =>
    match skipGap text with
    | [] => none
    | '"' :: cs => (readString none .plain [] cs).map fun (s, rest) => (string s, rest)
    | '[' :: cs =>
      match depth with
      | 0 => none
      | depth + 1 =>
        match skipGap cs with
        | ']' :: rest => some (array [], rest)
        | cs => (readItems fuel depth [] cs).map fun (items, rest) => (array items, rest)
    | '\x7b' :: cs =>
      match depth with
      | 0 => none
      | depth + 1 =>
        match skipGap cs with
        | '\x7d' :: rest => some (object [], rest)
        | cs => (readMembers fuel depth [] cs).map fun (pairs, rest) => (ofMembers pairs, rest)
    | 'n' :: cs => (behind? ['u', 'l', 'l'] cs).map fun rest => (null, rest)
    | 't' :: cs => (behind? ['r', 'u', 'e'] cs).map fun rest => (boolean true, rest)
    | 'f' :: cs => (behind? ['a', 'l', 's', 'e'] cs).map fun rest => (boolean false, rest)
    | cs => (readNumber cs).map fun (n, rest) => (number n, rest)

/-- Reads the elements of a sequence up to its closing bracket. -/
def readItems : (fuel depth : Nat) → (read : List Json) → List Char →
    Option (List Json × List Char)
  | 0, _, _, _ => none
  | fuel + 1, depth, read, text =>
    match readValue fuel depth text with
    | none => none
    | some (item, rest) =>
      match skipGap rest with
      | ',' :: rest => readItems fuel depth (item :: read) rest
      | ']' :: rest => some ((item :: read).reverse, rest)
      | _ => none

/-- Reads the members of an object up to its closing brace, in the order they are written. -/
def readMembers : (fuel depth : Nat) → (read : List (String × Json)) → List Char →
    Option (List (String × Json) × List Char)
  | 0, _, _, _ => none
  | fuel + 1, depth, read, text =>
    match skipGap text with
    | '"' :: cs =>
      match readString none .plain [] cs with
      | none => none
      | some (name, rest) =>
        match skipGap rest with
        | ':' :: rest =>
          match readValue fuel depth rest with
          | none => none
          | some (value, rest) =>
            match skipGap rest with
            | ',' :: rest => readMembers fuel depth ((name, value) :: read) rest
            | '\x7d' :: rest => some (((name, value) :: read).reverse, rest)
            | _ => none
        | _ => none
    | _ => none

end

/-- The most levels of sequences and objects inside one another. -/
def depthLimit : Nat := 127

/-- The value that a text spells, with nothing but a gap around it. -/
def ofText? (s : String) : Option Json :=
  let cs := s.toList
  match readValue (2 * cs.length + 2) depthLimit cs with
  | some (value, rest) => if (skipGap rest).isEmpty then some value else none
  | none => none

/-- The member names of the object that a text spells, in the order they are written and with
repetitions; nothing if the text does not begin as an object with members does. -/
def memberNames? (s : String) : Option (List String) :=
  let cs := s.toList
  match skipGap cs with
  | '\x7b' :: cs =>
    (readMembers (2 * cs.length + 2) (depthLimit - 1) [] cs).map fun (pairs, _) =>
      pairs.map Prod.fst
  | _ => none

end Json

end RemoteTable
