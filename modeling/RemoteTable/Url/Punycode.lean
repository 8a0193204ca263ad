/-!
# Punycode

The form of a label with characters outside ASCII: its ASCII characters, a hyphen if there are any,
and then the other characters in the order of their code points, each as the number of steps from
the one before. A step is a place in the label for a code point. The steps are written in base 36
with thresholds that adapt to the steps so far.
-/

namespace RemoteTable

namespace Punycode

/-! ## Digits -/

/-- The character of a digit: letters, then the decimal digits. -/
def digit (d : Nat) : Char :=
  if d < 26 then Char.ofNat (0x61 + d) else Char.ofNat (0x30 + d - 26)

/-- The threshold of a place; `place` counts in steps of 36. -/
def threshold (place bias : Nat) : Nat :=
  if place ≤ bias + 1 then 1 else if bias + 26 ≤ place then 26 else place - bias

/-- The threshold is positive, so that the number of steps decreases from digit to digit. -/
theorem threshold_pos (place bias : Nat) : 1 ≤ threshold place bias := by
  unfold threshold
  split
  · omega
  · split <;> omega

/-- The digits of a number of steps. -/
def digits (bias place steps : Nat) : List Char :=
  let t := threshold place bias
  if steps < t then [digit steps]
  else digit (t + (steps - t) % (36 - t)) :: digits bias (place + 36) ((steps - t) / (36 - t))
termination_by steps
decreasing_by
  have positive := threshold_pos place bias
  exact Nat.lt_of_le_of_lt (Nat.div_le_self _ _) (by omega)

/-- Divides a number by 35 until it is at most 455, and counts 36 for each time. -/
def shrink (delta : Nat) : Nat × Nat :=
  if 455 < delta then
    let (rest, count) := shrink (delta / 35)
    (rest, count + 36)
  else (delta, 0)
termination_by delta
decreasing_by exact Nat.div_lt_self (by omega) (by omega)

/-- The bias after a number of steps, when so many characters have been written. -/
def adapt (steps written : Nat) (first : Bool) : Nat :=
  let delta := if first then steps / 700 else steps / 2
  let (rest, count) := shrink (delta + delta / written)
  count + 36 * rest / (rest + 38)

/-! ## Labels -/

/-- What has been written of a label. -/
structure State where
  /-- The digits so far. -/
  out : List Char
  /-- The steps since the last character. -/
  steps : Nat
  /-- The bias of the next number. -/
  bias : Nat
  /-- The characters written so far. -/
  written : Nat

/-- Goes by a character of the label on the way to a code point. -/
def pass (ascii code : Nat) (s : State) (c : Char) : State :=
  if c.toNat < code then { s with steps := s.steps + 1 }
  else if c.toNat = code then
    { out := s.out ++ digits s.bias 36 s.steps
      steps := 0
      bias := adapt s.steps (s.written + 1) (s.written == ascii)
      written := s.written + 1 }
  else s

/-- Writes the characters with the given code points, the least first. -/
def passes (label : List Char) (ascii : Nat) : Nat → List Nat → State → State
  | _, [], s => s
  | next, code :: codes, s =>
    let reached := { s with steps := s.steps + (code - next) * (s.written + 1) }
    let passed := label.foldl (pass ascii code) reached
    passes label ascii (code + 1) codes { passed with steps := passed.steps + 1 }

/-- The Punycode of a label. -/
def encode (label : List Char) : List Char :=
  let ascii := label.filter fun c => c.toNat < 0x80
  let codes := ((label.filter fun c => 0x80 ≤ c.toNat).map Char.toNat).eraseDups.mergeSort
  let start := if ascii.isEmpty then [] else ascii ++ ['-']
  start ++ (passes label ascii.length 0x80 codes ⟨[], 0, 72, ascii.length⟩).out

end Punycode

end RemoteTable
