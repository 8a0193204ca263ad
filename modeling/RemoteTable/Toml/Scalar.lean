import RemoteTable.Toml.Text
import RemoteTable.Toml.Value

/-!
# TOML numbers, truth values and moments

These are words without blanks inside, except that a date and a time of day may be separated by one.
Digits may be grouped by underscores, each between two digits. Dates are checked against the
calendar, and fractions of a second are kept to nine digits.
-/

namespace RemoteTable

namespace Toml

/-! ## Numbers -/

/-- Takes the underscores out of digits behind other characters; `afterDigit` says whether the
character in front was a digit. -/
def ungroupFrom (isDigit : Char → Bool) (afterDigit : Bool) : List Char → Option (List Char)
  | [] => if afterDigit then some [] else none
  | c :: cs =>
    if isDigit c then (ungroupFrom isDigit true cs).map (c :: ·)
    else if c = '_' ∧ afterDigit then ungroupFrom isDigit false cs
    else none

/-- Takes the underscores out of digits, if each stands between two of them. -/
def ungroup (isDigit : Char → Bool) (cs : List Char) : Option (List Char) :=
  ungroupFrom isDigit false cs

/-- The digits of a decimal whole number: no zero in front of others. -/
def wholeDigits? (cs : List Char) : Option (List Char) :=
  match ungroup isDigit cs with
  | some ['0'] => some ['0']
  | some ('0' :: _) => none
  | digits => digits

/-- The whole number if a signed number of 64 bits can hold it. -/
def bounded (n : Int) : Option Value :=
  if -signedEnd ≤ n ∧ n < signedEnd then some (.integer n) else none

/-- Reads digits of a base up to sixteen. -/
def basedInteger? (base : Nat) (cs : List Char) : Option Value := do
  let value (c : Char) : Nat := (hexValue? c).getD base
  let digits ← ungroup (fun c => value c < base) cs
  bounded (digits.foldl (fun n c => base * n + value c) 0 : Nat)

/-- Reads a whole number. -/
def integer? (cs : List Char) : Option Value :=
  match cs with
  | '0' :: 'x' :: digits => basedInteger? 16 digits
  | '0' :: 'o' :: digits => basedInteger? 8 digits
  | '0' :: 'b' :: digits => basedInteger? 2 digits
  | '-' :: digits => do bounded (-(valueFrom 0 (← wholeDigits? digits) : Nat) : Int)
  | '+' :: digits => do bounded (valueFrom 0 (← wholeDigits? digits) : Nat)
  | digits => do bounded (valueFrom 0 (← wholeDigits? digits) : Nat)

/-- Whether a character begins an exponent. -/
def isExponentMark (c : Char) : Bool :=
  c == 'e' || c == 'E'

/-- The value of an exponent, without its letter. -/
def exponentValue? : List Char → Option Int
  | '-' :: digits => do some (-(valueFrom 0 (← ungroup isDigit digits) : Nat) : Int)
  | '+' :: digits => do some (valueFrom 0 (← ungroup isDigit digits) : Nat)
  | digits => do some (valueFrom 0 (← ungroup isDigit digits) : Nat)

/-- Reads a number with a fraction, an exponent or both. A number beyond the finite doubles is only
accepted below zero, where it is an infinity. -/
def unsignedFloat? (negative : Bool) (cs : List Char) : Option Value := do
  let mantissa := cs.takeWhile fun c => !isExponentMark c
  let exponent ← match cs.dropWhile fun c => !isExponentMark c with
    | [] => some none
    | _ :: more => (exponentValue? more).map some
  let whole ← wholeDigits? (mantissa.takeWhile (· != '.'))
  let fraction ← match mantissa.dropWhile (· != '.') with
    | [] => some none
    | _ :: more => (ungroup isDigit more).map some
  if exponent.isNone ∧ fraction.isNone then none
  else
    let places := fraction.getD []
    match Double.ofDecimal negative (valueFrom 0 (whole ++ places))
        (exponent.getD 0 - places.length) with
    | .infinite false => none
    | x => some (.float x)

/-- Reads a number with a fraction or an exponent, an infinity or not-a-number. -/
def float? (cs : List Char) : Option Value :=
  let (negative, body) := match cs with
    | '-' :: more => (true, more)
    | '+' :: more => (false, more)
    | more => (false, more)
  if body = ['i', 'n', 'f'] then some (.float (.infinite negative))
  else if body = ['n', 'a', 'n'] then some (.float .notANumber)
  else unsignedFloat? negative body

/-! ## Moments -/

/-- The number that two characters spell. -/
def twoDigits? (a b : Char) : Option Nat :=
  if isDigit a && isDigit b then some (10 * digitValue a + digitValue b) else none

/-- The last day of a month. -/
def lastDay (year month : Nat) : Nat :=
  if month = 2 then
    if year % 4 = 0 ∧ (year % 100 ≠ 0 ∨ year % 400 = 0) then 29 else 28
  else if month = 4 ∨ month = 6 ∨ month = 9 ∨ month = 11 then 30
  else 31

/-- Reads a date at the front of a word and gives its text and the rest. -/
def date? : List Char → Option (List Char × List Char)
  | a :: b :: c :: d :: '-' :: e :: f :: '-' :: g :: h :: rest => do
    let century ← twoDigits? a b
    let year ← twoDigits? c d
    let month ← twoDigits? e f
    let day ← twoDigits? g h
    if 1 ≤ month ∧ month ≤ 12 ∧ 1 ≤ day ∧ day ≤ lastDay (100 * century + year) month then
      some ([a, b, c, d, '-', e, f, '-', g, h], rest)
    else none
  | _ => none

/-- The digits of a fraction of a second as they are shown: at most nine, without zeros at the
end, behind a point. -/
def shownFraction (digits : List Char) : List Char :=
  match ((digits.take 9).reverse.dropWhile (· == '0')).reverse with
  | [] => []
  | shown => '.' :: shown

/-- Reads a time of day at the front of a word and gives its text and the rest. -/
def time? : List Char → Option (List Char × List Char)
  | a :: b :: ':' :: c :: d :: ':' :: e :: f :: rest => do
    let hour ← twoDigits? a b
    let minute ← twoDigits? c d
    let second ← twoDigits? e f
    if hour ≤ 23 ∧ minute ≤ 59 ∧ second ≤ 60 then
      let shown := [a, b, ':', c, d, ':', e, f]
      match rest with
      | '.' :: more =>
        let digits := more.takeWhile isDigit
        if digits.isEmpty then none
        else some (shown ++ shownFraction digits, more.dropWhile isDigit)
      | rest => some (shown, rest)
    else none
  | _ => none

/-- Reads the offset of a time of day, which has to be the whole word. -/
def offset? : List Char → Option (List Char)
  | [] => some []
  | ['Z'] | ['z'] => some ['Z']
  | [sign, a, b, ':', c, d] => do
    let hours ← twoDigits? a b
    let minutes ← twoDigits? c d
    if (sign = '+' ∨ sign = '-') ∧ hours ≤ 23 ∧ minutes ≤ 59 then
      let shownSign := if hours = 0 ∧ minutes = 0 then '+' else sign
      some [shownSign, a, b, ':', c, d]
    else none
  | _ => none

/-- Reads a date, a time of day, or a date and a time of day with or without an offset. -/
def moment? (cs : List Char) : Option Value :=
  match date? cs with
  | some (date, []) => some (.moment (String.ofList date))
  | some (date, separator :: more) =>
    if separator = 'T' ∨ separator = 't' ∨ separator = ' ' then do
      let (time, rest) ← time? more
      let offset ← offset? rest
      some (.moment (String.ofList (date ++ 'T' :: time ++ offset)))
    else none
  | none =>
    match time? cs with
    | some (time, []) => some (.moment (String.ofList time))
    | _ => none

/-! ## Words -/

/-- Whether a character ends a word. -/
def endsWord (c : Char) : Bool :=
  c == ' ' || c == '\t' || c == '\n' || c == '\r' || c == '#' || c == ',' || c == ']' || c == '\x7d'

/-- The value of a word. -/
def wordValue? (cs : List Char) : Option Value :=
  if cs = ['t', 'r', 'u', 'e'] then some (.boolean true)
  else if cs = ['f', 'a', 'l', 's', 'e'] then some (.boolean false)
  else (moment? cs).or ((float? cs).or (integer? cs))

/-- Reads a word at the front of a text. A date takes a time of day behind one blank along. -/
def readWord (cs : List Char) : Option (Value × List Char) :=
  let word := cs.takeWhile fun c => !endsWord c
  let rest := cs.dropWhile fun c => !endsWord c
  match date? word, rest with
  | some (_, []), ' ' :: c :: more =>
    if isDigit c then
      let time := (c :: more).takeWhile fun c => !endsWord c
      (wordValue? (word ++ ' ' :: time)).map fun v =>
        (v, (c :: more).dropWhile fun c => !endsWord c)
    else (wordValue? word).map fun v => (v, rest)
  | _, _ => (wordValue? word).map fun v => (v, rest)

end Toml

end RemoteTable
